import Mathlib.Algebra.BigOperators.Group.List.Basic
import Mathlib.Data.Rat.Floor
import Mathlib.Tactic.Linarith
import RestreamPlus.Domain.Target
import RestreamPlus.Lib.Dict
import RestreamPlus.Lib.Machine

/-!
# Host statistics (`app/fanout/host_stats.py`)

Two readings of a process give its share of the host. A reading is the baseline of the
next one; it is dropped when the process is gone, and when the next one is absurd: the
ceiling is 100 % times the number of cores, although the share is already divided by
that number.

`sample_ok_iff` says which samples that lets through.
-/

namespace RestreamPlus

open Interleaving

/-- What `ProcStatReader` reads. -/
structure Reading : Type where
  utime : ℤ
  stime : ℤ
  rssBytes : ℤ

/-- A worker of `worker_pids`, and what is read for its pid. -/
structure WorkerPid : Type where
  workerId : WorkerId
  pid : ℕ
  reading : Option Reading

/-- What one `sample` meets: the clock, the workers, the reading of the control plane, and
what the ingest fetch returns. -/
structure Tick : Type where
  nowNs : ℤ
  workers : List WorkerPid
  self : Option Reading
  ingest : Option ℚ

/-- `HostStatsSample`. -/
structure HostStatsSample : Type where
  cpuTotalPct : ℚ
  cpuByTarget : List (WorkerId × ℚ)
  rssBytes : ℤ
  ingestKbps : Option ℚ

/-- `HostStatsSampler`. -/
structure HostStatsSampler : Type where
  clkTck : ℕ
  logicalCpus : ℕ
  clkTck_pos : 0 < clkTck
  logicalCpus_pos : 0 < logicalCpus
  selfPid : ℕ
  /-- the ticks and the clock of the last reading of a pid -/
  lastSamples : Dict ℕ (ℤ × ℤ)

namespace HostStatsSampler

/-- The accounting map is replaced. -/
def setSamples (s : HostStatsSampler) (lastSamples : Dict ℕ (ℤ × ℤ)) : HostStatsSampler :=
  { s with lastSamples := lastSamples }

/-- `_account_pct`. -/
def accountPct (s : HostStatsSampler) (pid : ℕ) (utime stime nowNs : ℤ) : HostStatsSampler × ℚ :=
  let total := utime + stime
  let seeded := s.lastSamples.insert pid (total, nowNs)
  match s.lastSamples.get? pid with
  | none => (s.setSamples seeded, 0)
  | some (prevTotal, prevNs) =>
    let dTicks := total - prevTotal
    let dWallS : ℚ := ((nowNs - prevNs : ℤ) : ℚ) / 1000000000
    if dTicks < 0 ∨ dWallS ≤ 0 then (s.setSamples seeded, 0)
    else
      let cpuSeconds : ℚ := dTicks / s.clkTck
      let pct := cpuSeconds / dWallS * (100 / s.logicalCpus)
      let maxSanePct : ℚ := 100 * s.logicalCpus
      if maxSanePct < pct then (s.setSamples (seeded.erase pid), 0)
      else (s.setSamples seeded, pct)

/-- `_read_and_account`. -/
def readAndAccount (s : HostStatsSampler) (pid : ℕ) (nowNs : ℤ) :
    Option Reading → HostStatsSampler × ℚ
  | none => (s.setSamples (s.lastSamples.erase pid), 0)
  | some r => s.accountPct pid r.utime r.stime nowNs

/-- The loop of `sample` over the workers. -/
def readWorkers (s : HostStatsSampler) (nowNs : ℤ) :
    List WorkerPid → HostStatsSampler × List (WorkerId × ℚ)
  | [] => (s, [])
  | w :: ws =>
    let (s, pct) := s.readAndAccount w.pid nowNs w.reading
    let (s, perTarget) := readWorkers s nowNs ws
    (s, (w.workerId, pct) :: perTarget)

/-- The reading of the control plane: its share, and its memory. -/
def readSelf (s : HostStatsSampler) (nowNs : ℤ) : Option Reading → HostStatsSampler × ℚ × ℤ
  | none => (s, 0, 0)
  | some r =>
    let (s, pct) := s.accountPct s.selfPid r.utime r.stime nowNs
    (s, pct, r.rssBytes)

/-- The accounting of pids that are neither a worker's nor the control plane's is dropped. -/
def pruneStale (s : HostStatsSampler) (workers : List WorkerPid) : HostStatsSampler :=
  let livePids := s.selfPid :: workers.map WorkerPid.pid
  s.setSamples <| (s.lastSamples.keys.filter (· ∉ livePids)).foldl Dict.erase s.lastSamples

/-- `sample`. -/
def sample (s : HostStatsSampler) (tick : Tick) : HostStatsSampler × HostStatsSample :=
  let (s, perTarget) := s.readWorkers tick.nowNs tick.workers
  let (s, selfPct, rssBytes) := s.readSelf tick.nowNs tick.self
  (s.pruneStale tick.workers,
    ⟨(perTarget.map Prod.snd).sum + selfPct, perTarget, rssBytes, tick.ingest⟩)

/-! ## What is meant -/

/-- A pid is there if its last reading among these succeeded. -/
def present (workers : List WorkerPid) (was : Bool) (pid : ℕ) : Bool :=
  workers.foldl (fun b w => if w.pid = pid then w.reading.isSome else b) was

/-- A pid is there after this sample; the control plane is read last. -/
def presentAfter (selfPid : ℕ) (previous : Option Tick) (pid : ℕ) : Bool :=
  match previous with
  | none => false
  | some tick => if pid = selfPid then tick.self.isSome else present tick.workers false pid

/-- **What a sample is meant to be**, given the one before it. -/
structure Ok (s : HostStatsSampler) (previous : Option Tick) (tick : Tick)
    (sample : HostStatsSample) : Prop where
  /-- a share of one host -/
  bounded : ∀ e ∈ sample.cpuByTarget, 0 ≤ e.2 ∧ e.2 ≤ 100
  /-- the first reading of a worker's pid after an absence contributes nothing -/
  first : ∀ before w after, tick.workers = before ++ w :: after →
    present before (presentAfter s.selfPid previous w.pid) w.pid = false →
      ∀ e, sample.cpuByTarget[before.length]? = some e → e.2 = 0
  /-- nor that of the control plane -/
  firstSelf : present tick.workers (presentAfter s.selfPid previous s.selfPid) s.selfPid = false →
    sample.cpuTotalPct = (sample.cpuByTarget.map Prod.snd).sum
  keys : ∀ pid ∈ s.lastSamples.keys, pid ∈ tick.workers.map WorkerPid.pid ∨ pid = s.selfPid

/-! ## The condition -/

/-- CPU ticks since the baseline. -/
def ticksSince (base : ℤ × ℤ) (r : Reading) : ℤ := r.utime + r.stime - base.1

/-- Seconds since the baseline. -/
def secondsSince (base : ℤ × ℤ) (nowNs : ℤ) : ℚ := ((nowNs - base.2 : ℤ) : ℚ) / 1000000000

/-- Cores in use since the baseline. -/
def cores (s : HostStatsSampler) (base : ℤ × ℤ) (r : Reading) (nowNs : ℤ) : ℚ :=
  (ticksSince base r : ℚ) / s.clkTck / secondsSince base nowNs

/-- More cores in use than there are, but not more than their square. -/
def InGap (s : HostStatsSampler) (pid : ℕ) (r : Reading) (nowNs : ℤ) : Prop :=
  ∃ base ∈ s.lastSamples.get? pid, 0 ≤ ticksSince base r ∧ 0 < secondsSince base nowNs ∧
    s.logicalCpus < s.cores base r nowNs ∧ s.cores base r nowNs ≤ s.logicalCpus ^ 2

/-- Something was used since the baseline, and not more cores than the square of their
number. -/
def Advanced (s : HostStatsSampler) (pid : ℕ) (r : Reading) (nowNs : ℤ) : Prop :=
  ∃ base ∈ s.lastSamples.get? pid, 0 < ticksSince base r ∧ 0 < secondsSince base nowNs ∧
    s.cores base r nowNs ≤ s.logicalCpus ^ 2

/-- No worker is read with more cores in use than there are and believed; and the control
plane, back after an absence, is not read against a baseline from before. -/
structure Sane (s : HostStatsSampler) (previous : Option Tick) (tick : Tick) : Prop where
  gap : ∀ before w after r, tick.workers = before ++ w :: after →
    w.pid ∉ before.map WorkerPid.pid → w.reading = some r → ¬ s.InGap w.pid r tick.nowNs
  stale : ∀ before w after r, tick.workers = before ++ w :: after →
    w.pid ∉ before.map WorkerPid.pid → w.reading = some r → w.pid = s.selfPid →
      presentAfter s.selfPid previous s.selfPid = false → ¬ s.Advanced s.selfPid r tick.nowNs
  staleSelf : ∀ r, s.selfPid ∉ tick.workers.map WorkerPid.pid → tick.self = some r →
    presentAfter s.selfPid previous s.selfPid = false → ¬ s.Advanced s.selfPid r tick.nowNs

/-! ## Samples one after the other -/

/-- A sampler, the last sample, and what the one before it met. -/
structure Sampling : Type where
  sampler : HostStatsSampler
  previous : Option Tick
  last : Option (Tick × HostStatsSample)

namespace Sampling

/-- A new sampler. -/
def init (s : HostStatsSampler) : Sampling := ⟨s.setSamples ∅, none, none⟩

def step (c : Sampling) (tick : Tick) : Option Sampling :=
  some ⟨(c.sampler.sample tick).1, c.last.map Prod.fst, some (tick, (c.sampler.sample tick).2)⟩

/-- The samples of a process. -/
def machine : Machine Sampling Tick := ⟨step⟩

/-- The last sample is as it is meant to be. -/
def LastOk (c : Sampling) : Prop :=
  ∀ last ∈ c.last, c.sampler.Ok c.previous last.1 last.2

/-- The next one meets the condition. -/
def NextSane (c : Sampling) (tick : Tick) : Prop := c.sampler.Sane (c.last.map Prod.fst) tick

end Sampling

/-! ## One reading -/

section Reading

variable {s : HostStatsSampler} {pid : ℕ} {r : Reading} {nowNs : ℤ}

theorem InGap.advanced (h : s.InGap pid r nowNs) : s.Advanced pid r nowNs := by
  obtain ⟨base, hbase, hticks, hsecs, hover, hunder⟩ := h
  refine ⟨base, hbase, lt_of_le_of_ne hticks fun h0 => ?_, hsecs, hunder⟩
  have hzero : s.cores base r nowNs = 0 := by
    rw [cores, ← h0]
    simp
  rw [hzero] at hover
  exact absurd hover (not_lt.mpr (Nat.cast_nonneg _))

/-- With one core there is no gap. -/
theorem not_inGap_of_single (hone : s.logicalCpus = 1) : ¬ s.InGap pid r nowNs := by
  rintro ⟨base, -, -, -, hover, hunder⟩
  rw [hone, Nat.cast_one] at hover
  rw [hone, Nat.cast_one, one_pow] at hunder
  exact absurd hover (not_lt.mpr hunder)

/-- The share is that of the cores in use. -/
theorem share_eq (s : HostStatsSampler) (base : ℤ × ℤ) (r : Reading) (nowNs : ℤ) :
    (ticksSince base r : ℚ) / s.clkTck / secondsSince base nowNs * (100 / s.logicalCpus) =
      100 * s.cores base r nowNs / s.logicalCpus := by
  rw [cores]
  ring

theorem cpus_pos (s : HostStatsSampler) : (0 : ℚ) < s.logicalCpus :=
  Nat.cast_pos.mpr s.logicalCpus_pos

/-- The ceiling is reached with the square of the cores. -/
theorem ceiling_iff (s : HostStatsSampler) (c : ℚ) :
    100 * (s.logicalCpus : ℚ) < 100 * c / s.logicalCpus ↔ (s.logicalCpus : ℚ) ^ 2 < c := by
  rw [lt_div_iff₀ s.cpus_pos]
  constructor
  · intro h
    linarith
  · intro h
    linarith

theorem not_advanced {base : ℤ × ℤ} (h : s.lastSamples.get? pid = some base)
    (hno : ¬ (0 < ticksSince base r ∧ 0 < secondsSince base nowNs ∧
      s.cores base r nowNs ≤ s.logicalCpus ^ 2)) : ¬ s.Advanced pid r nowNs := by
  rintro ⟨base', hbase', hadv⟩
  rw [Option.mem_def, h] at hbase'
  cases hbase'
  exact hno hadv

/-- **What a reading contributes**: the share of the cores in use, if something was used
and the ceiling is not reached; nothing otherwise. -/
theorem snd_accountPct (s : HostStatsSampler) (pid : ℕ) (r : Reading) (nowNs : ℤ) :
    ((s.accountPct pid r.utime r.stime nowNs).2 = 0 ∧ ¬ s.Advanced pid r nowNs) ∨
      ∃ base ∈ s.lastSamples.get? pid, 0 < ticksSince base r ∧ 0 < secondsSince base nowNs ∧
        s.cores base r nowNs ≤ s.logicalCpus ^ 2 ∧
        (s.accountPct pid r.utime r.stime nowNs).2 =
          100 * s.cores base r nowNs / s.logicalCpus := by
  rcases h : s.lastSamples.get? pid with _ | base
  · refine .inl ⟨by rw [accountPct, h], ?_⟩
    rintro ⟨base, hbase, -⟩
    rw [h] at hbase
    cases hbase
  · have hshare := share_eq s base r nowNs
    rw [ticksSince, secondsSince] at hshare
    unfold accountPct
    rw [h]
    dsimp only
    split
    · -- the ticks or the clock went back
      rename_i hback
      refine .inl ⟨rfl, not_advanced h ?_⟩
      rintro ⟨hticks, hsecs, -⟩
      exact hback.elim (not_lt.mpr hticks.le) (not_le.mpr hsecs)
    · rename_i hforth
      rw [not_or, not_lt, not_le] at hforth
      rw [hshare]
      by_cases hover : 100 * (s.logicalCpus : ℚ) < 100 * s.cores base r nowNs / s.logicalCpus
      · -- above the ceiling
        rw [if_pos hover]
        refine .inl ⟨rfl, not_advanced h fun hadv => ?_⟩
        exact absurd hadv.2.2 (not_le.mpr ((ceiling_iff s _).mp hover))
      · rw [if_neg hover]
        dsimp only
        have hunder := not_lt.mp fun h => hover ((ceiling_iff s _).mpr h)
        rcases hforth.1.lt_or_eq with hticks | hticks
        · exact .inr ⟨base, rfl, hticks, hforth.2, hunder, rfl⟩
        · have hzero : ticksSince base r = 0 := hticks.symm
          refine .inl ⟨?_, not_advanced h fun hadv => hadv.1.ne' hzero⟩
          rw [cores, hzero]
          simp

theorem cores_pos {base : ℤ × ℤ} (hticks : 0 < ticksSince base r)
    (hsecs : 0 < secondsSince base nowNs) : 0 < s.cores base r nowNs :=
  div_pos (div_pos (Int.cast_pos.mpr hticks) (Nat.cast_pos.mpr s.clkTck_pos)) hsecs

theorem accountPct_nonneg (s : HostStatsSampler) (pid : ℕ) (r : Reading) (nowNs : ℤ) :
    0 ≤ (s.accountPct pid r.utime r.stime nowNs).2 := by
  obtain ⟨hzero, -⟩ | ⟨base, -, hticks, hsecs, -, hshare⟩ := s.snd_accountPct pid r nowNs
  · rw [hzero]
  · rw [hshare]
    exact div_nonneg (mul_nonneg (by norm_num) (cores_pos hticks hsecs).le) s.cpus_pos.le

theorem accountPct_eq_zero :
    (s.accountPct pid r.utime r.stime nowNs).2 = 0 ↔ ¬ s.Advanced pid r nowNs := by
  obtain ⟨hzero, hno⟩ | ⟨base, hbase, hticks, hsecs, hunder, hshare⟩ :=
    s.snd_accountPct pid r nowNs
  · exact iff_of_true hzero hno
  · refine iff_of_false ?_ (not_not_intro ⟨base, hbase, hticks, hsecs, hunder⟩)
    rw [hshare]
    exact (div_pos (mul_pos (by norm_num) (cores_pos hticks hsecs)) s.cpus_pos).ne'

theorem hundred_lt_accountPct :
    100 < (s.accountPct pid r.utime r.stime nowNs).2 ↔ s.InGap pid r nowNs := by
  obtain ⟨hzero, hno⟩ | ⟨base, hbase, hticks, hsecs, hunder, hshare⟩ :=
    s.snd_accountPct pid r nowNs
  · refine iff_of_false ?_ fun hgap => hno hgap.advanced
    rw [hzero]
    norm_num
  · rw [hshare, lt_div_iff₀ s.cpus_pos, mul_lt_mul_iff_right₀ (by norm_num)]
    refine ⟨fun hover => ⟨base, hbase, hticks.le, hsecs, hover, hunder⟩, ?_⟩
    rintro ⟨base', hbase', -, -, hover, -⟩
    rw [hbase] at hbase'
    cases hbase'
    exact hover

end Reading

/-! ## Readings one after the other -/

/-- **The frame** of some readings: the other baselines are left alone, and these are as
old as the clock. -/
structure Reads (s t : HostStatsSampler) (pids : List ℕ) (nowNs : ℤ) : Prop where
  host : t = s.setSamples t.lastSamples
  others : ∀ q ∉ pids, t.lastSamples.get? q = s.lastSamples.get? q
  seen : ∀ q ∈ pids, ∀ base ∈ t.lastSamples.get? q, base.2 = nowNs

theorem Reads.refl (s : HostStatsSampler) (nowNs : ℤ) : Reads s s [] nowNs :=
  ⟨rfl, fun _ _ => rfl, fun _ hq => absurd hq List.not_mem_nil⟩

section Frame

variable {s t u : HostStatsSampler} {pids pids' : List ℕ} {nowNs : ℤ}

theorem Reads.trans (h : Reads s t pids nowNs) (h' : Reads t u pids' nowNs) :
    Reads s u (pids ++ pids') nowNs := by
  refine ⟨?_, fun q hq => ?_, fun q hq base hbase => ?_⟩
  · rw [h'.host, h.host]
    rfl
  · rw [List.mem_append, not_or] at hq
    rw [h'.others q hq.2, h.others q hq.1]
  · by_cases hlate : q ∈ pids'
    · exact h'.seen q hlate base hbase
    · rw [h'.others q hlate] at hbase
      exact h.seen q ((List.mem_append.mp hq).resolve_right hlate) base hbase

/-- One pid is read: its baseline is gone, or new. -/
theorem Reads.single {pid : ℕ} {d : Dict ℕ (ℤ × ℤ)}
    (hothers : ∀ q ≠ pid, d.get? q = s.lastSamples.get? q)
    (hseen : ∀ base ∈ d.get? pid, base.2 = nowNs) :
    Reads s (s.setSamples d) [pid] nowNs := by
  refine ⟨rfl, fun q hq => hothers q (mt List.mem_singleton.mpr hq), fun q hq => ?_⟩
  obtain rfl := List.mem_singleton.mp hq
  exact hseen

theorem reads_erase (s : HostStatsSampler) (d : Dict ℕ (ℤ × ℤ)) (pid : ℕ) (nowNs : ℤ)
    (hothers : ∀ q ≠ pid, d.get? q = s.lastSamples.get? q) :
    Reads s (s.setSamples (d.erase pid)) [pid] nowNs := by
  refine .single (fun q hq => (d.get?_erase_ne hq).trans (hothers q hq)) ?_
  rw [Dict.get?_erase_self]
  nofun

theorem reads_accountPct (s : HostStatsSampler) (pid : ℕ) (utime stime nowNs : ℤ) :
    Reads s (s.accountPct pid utime stime nowNs).1 [pid] nowNs := by
  have hothers : ∀ q ≠ pid, (s.lastSamples.insert pid (utime + stime, nowNs)).get? q =
      s.lastSamples.get? q := fun q hq => s.lastSamples.get?_insert_ne _ hq
  have hseeded : Reads s (s.setSamples (s.lastSamples.insert pid (utime + stime, nowNs)))
      [pid] nowNs := by
    refine .single hothers ?_
    rw [Dict.get?_insert_self]
    rintro base ⟨⟩
    rfl
  unfold accountPct
  dsimp only
  split
  · exact hseeded
  · split
    · exact hseeded
    · split
      · exact reads_erase s _ pid nowNs hothers
      · exact hseeded

theorem reads_readAndAccount (s : HostStatsSampler) (pid : ℕ) (nowNs : ℤ)
    (reading : Option Reading) : Reads s (s.readAndAccount pid nowNs reading).1 [pid] nowNs := by
  cases reading with
  | none => exact reads_erase s _ pid nowNs fun _ _ => rfl
  | some r => exact s.reads_accountPct pid r.utime r.stime nowNs

theorem reads_readWorkers (s : HostStatsSampler) (nowNs : ℤ) (workers : List WorkerPid) :
    Reads s (s.readWorkers nowNs workers).1 (workers.map WorkerPid.pid) nowNs := by
  induction workers generalizing s with
  | nil => exact .refl s nowNs
  | cons w ws ih => exact (s.reads_readAndAccount w.pid nowNs w.reading).trans (ih _)

/-- What is used since a baseline depends on that baseline only. -/
theorem Reads.advanced_iff (h : Reads s t pids nowNs) {pid : ℕ} (hpid : pid ∉ pids)
    (r : Reading) : t.Advanced pid r nowNs ↔ s.Advanced pid r nowNs := by
  rw [Advanced, Advanced, h.others pid hpid, h.host]
  rfl

theorem Reads.inGap_iff (h : Reads s t pids nowNs) {pid : ℕ} (hpid : pid ∉ pids) (r : Reading) :
    t.InGap pid r nowNs ↔ s.InGap pid r nowNs := by
  rw [InGap, InGap, h.others pid hpid, h.host]
  rfl

/-- A pid that is read twice uses nothing in between. -/
theorem Reads.not_advanced (h : Reads s t pids nowNs) {pid : ℕ} (hpid : pid ∈ pids)
    (r : Reading) : ¬ t.Advanced pid r nowNs := by
  rintro ⟨base, hbase, -, hsecs, -⟩
  rw [secondsSince, h.seen pid hpid base hbase, sub_self] at hsecs
  norm_num at hsecs

theorem Reads.selfPid_eq (h : Reads s t pids nowNs) : t.selfPid = s.selfPid := by
  rw [h.host]
  rfl

end Frame

/-! ## What a worker contributes -/

section Contribution

variable {nowNs : ℤ}

theorem length_readWorkers (s : HostStatsSampler) (nowNs : ℤ) (workers : List WorkerPid) :
    (s.readWorkers nowNs workers).2.length = workers.length := by
  induction workers generalizing s with
  | nil => rfl
  | cons w ws ih => exact congrArg (· + 1) (ih _)

/-- The contribution of a worker, after the workers before it. -/
theorem getElem?_readWorkers (s : HostStatsSampler) (nowNs : ℤ) (before after : List WorkerPid)
    (w : WorkerPid) : (s.readWorkers nowNs (before ++ w :: after)).2[before.length]? =
      some (w.workerId,
        ((s.readWorkers nowNs before).1.readAndAccount w.pid nowNs w.reading).2) := by
  induction before generalizing s with
  | nil => rfl
  | cons v before ih => exact ih _

theorem mem_readWorkers (s : HostStatsSampler) (workers : List WorkerPid) {e : WorkerId × ℚ}
    (he : e ∈ (s.readWorkers nowNs workers).2) : ∃ before w after,
      workers = before ++ w :: after ∧
        e.2 = ((s.readWorkers nowNs before).1.readAndAccount w.pid nowNs w.reading).2 := by
  obtain ⟨i, hlt, hget⟩ := List.mem_iff_getElem.mp he
  have hi : i < workers.length := (s.length_readWorkers nowNs workers).subst hlt
  have hsplit : workers = workers.take i ++ workers[i] :: workers.drop (i + 1) := by
    rw [List.getElem_cons_drop, List.take_append_drop]
  have hplace := s.getElem?_readWorkers nowNs (workers.take i) (workers.drop (i + 1)) workers[i]
  rw [← hsplit, List.length_take_of_le hi.le, List.getElem?_eq_getElem hlt, hget] at hplace
  exact ⟨_, _, _, hsplit, congrArg Prod.snd (Option.some.inj hplace)⟩

theorem readAndAccount_nonneg (s : HostStatsSampler) (pid : ℕ) (nowNs : ℤ)
    (reading : Option Reading) : 0 ≤ (s.readAndAccount pid nowNs reading).2 := by
  cases reading with
  | none => exact le_rfl
  | some r => exact s.accountPct_nonneg pid r nowNs

/-- **More than the host** is contributed exactly by a first reading in the gap. -/
theorem hundred_lt_contribution (s : HostStatsSampler) (before : List WorkerPid)
    (w : WorkerPid) :
    100 < ((s.readWorkers nowNs before).1.readAndAccount w.pid nowNs w.reading).2 ↔
      ∃ r, w.reading = some r ∧ w.pid ∉ before.map WorkerPid.pid ∧ s.InGap w.pid r nowNs := by
  have hreads := s.reads_readWorkers nowNs before
  rcases hreading : w.reading with _ | r
  · refine iff_of_false ?_ ?_
    · rw [readAndAccount]
      norm_num
    · rintro ⟨r, hr, -⟩
      cases hr
  · rw [readAndAccount, hundred_lt_accountPct]
    by_cases hpid : w.pid ∈ before.map WorkerPid.pid
    · refine iff_of_false (fun hgap => hreads.not_advanced hpid r hgap.advanced) ?_
      rintro ⟨-, -, hno, -⟩
      exact hno hpid
    · rw [hreads.inGap_iff hpid]
      refine ⟨fun h => ⟨r, rfl, hpid, h⟩, ?_⟩
      rintro ⟨r', hr', -, h⟩
      cases hr'
      exact h

/-- **Something** is contributed exactly by a first reading that advanced. -/
theorem contribution_eq_zero (s : HostStatsSampler) (before : List WorkerPid) (w : WorkerPid) :
    ((s.readWorkers nowNs before).1.readAndAccount w.pid nowNs w.reading).2 = 0 ↔
      ∀ r, w.reading = some r → w.pid ∉ before.map WorkerPid.pid → ¬ s.Advanced w.pid r nowNs := by
  have hreads := s.reads_readWorkers nowNs before
  rcases hreading : w.reading with _ | r
  · refine iff_of_true rfl ?_
    nofun
  · rw [readAndAccount, accountPct_eq_zero]
    by_cases hpid : w.pid ∈ before.map WorkerPid.pid
    · exact iff_of_true (hreads.not_advanced hpid r) fun _ _ hno => absurd hpid hno
    · rw [hreads.advanced_iff hpid]
      refine ⟨fun h r' hr' _ => ?_, fun h => h r rfl hpid⟩
      cases hr'
      exact h

end Contribution

/-! ## Which baselines are kept -/

/-- A pid other than the control plane's has no baseline from before an absence. -/
def Kept (s : HostStatsSampler) (previous : Option Tick) : Prop :=
  ∀ pid ≠ s.selfPid, presentAfter s.selfPid previous pid = false → s.lastSamples.get? pid = none

section Baselines

variable {s : HostStatsSampler} {nowNs : ℤ}

theorem present_of_not_mem {workers : List WorkerPid} {pid : ℕ}
    (h : pid ∉ workers.map WorkerPid.pid) (was : Bool) : present workers was pid = was := by
  induction workers generalizing was with
  | nil => rfl
  | cons w ws ih =>
    rw [List.map_cons, List.mem_cons, not_or] at h
    rw [present, List.foldl_cons, if_neg (Ne.symm h.1)]
    exact ih h.2 was

/-- A worker's pid that was read in vain at last has no baseline. -/
theorem get?_readWorkers_of_absent (s : HostStatsSampler) {workers : List WorkerPid} {pid : ℕ}
    (hpid : pid ∈ workers.map WorkerPid.pid) (was : Bool)
    (h : present workers was pid = false) :
    (s.readWorkers nowNs workers).1.lastSamples.get? pid = none := by
  induction workers generalizing s was with
  | nil => cases hpid
  | cons w ws ih =>
    rw [present, List.foldl_cons] at h
    by_cases hlate : pid ∈ ws.map WorkerPid.pid
    · exact ih _ hlate _ h
    · -- the last worker with this pid
      obtain rfl : pid = w.pid := (List.mem_cons.mp hpid).resolve_right hlate
      rw [← present, present_of_not_mem hlate, if_pos rfl] at h
      have hnone : w.reading = none := Option.not_isSome_iff_eq_none.mp (by rw [h]; nofun)
      rw [readWorkers]
      dsimp only
      rw [(reads_readWorkers _ nowNs ws).others _ hlate, hnone]
      exact Dict.get?_erase_self _ _

theorem reads_readSelf (s : HostStatsSampler) (nowNs : ℤ) (self : Option Reading) :
    ∃ pids, (∀ q ∈ pids, q = s.selfPid) ∧ Reads s (s.readSelf nowNs self).1 pids nowNs := by
  cases self with
  | none => exact ⟨[], fun _ hq => absurd hq List.not_mem_nil, .refl s nowNs⟩
  | some r =>
    exact ⟨[s.selfPid], fun _ hq => List.mem_singleton.mp hq,
      s.reads_accountPct s.selfPid r.utime r.stime nowNs⟩

theorem get?_foldl_erase (pids : List ℕ) (d : Dict ℕ (ℤ × ℤ)) (q : ℕ) :
    (pids.foldl Dict.erase d).get? q = if q ∈ pids then none else d.get? q := by
  induction pids generalizing d with
  | nil => rw [List.foldl_nil, if_neg List.not_mem_nil]
  | cons p pids ih =>
    rw [List.foldl_cons, ih, Dict.get?_erase]
    by_cases hlate : q ∈ pids
    · rw [if_pos hlate, if_pos (List.mem_cons_of_mem p hlate)]
    · by_cases hp : q = p
      · rw [if_neg hlate, if_pos hp, if_pos (hp ▸ List.mem_cons_self)]
      · rw [if_neg hlate, if_neg hp, if_neg (by simp [hp, hlate])]

/-- **Pruning** leaves the baselines of the workers and of the control plane. -/
theorem get?_pruneStale (s : HostStatsSampler) (workers : List WorkerPid) (q : ℕ) :
    (s.pruneStale workers).lastSamples.get? q =
      if q ∈ s.selfPid :: workers.map WorkerPid.pid then s.lastSamples.get? q else none := by
  rw [pruneStale, setSamples, get?_foldl_erase]
  by_cases hlive : q ∈ s.selfPid :: workers.map WorkerPid.pid
  · rw [if_pos hlive, if_neg]
    intro hstale
    have := (List.mem_filter.mp hstale).2
    exact of_decide_eq_true this hlive
  · rw [if_neg hlive]
    split
    · rfl
    · rename_i hkept
      refine Dict.not_mem_keys.mp fun hkey => hkept ?_
      exact List.mem_filter.mpr ⟨hkey, decide_eq_true hlive⟩

/-- The sampler after the readings of a sample. -/
def readAll (s : HostStatsSampler) (tick : Tick) : HostStatsSampler :=
  ((s.readWorkers tick.nowNs tick.workers).1.readSelf tick.nowNs tick.self).1

theorem fst_sample (s : HostStatsSampler) (tick : Tick) :
    (s.sample tick).1 = (s.readAll tick).pruneStale tick.workers := rfl

theorem reads_readAll (s : HostStatsSampler) (tick : Tick) :
    ∃ pids, (∀ q ∈ pids, q = s.selfPid) ∧
      Reads s (s.readAll tick) (tick.workers.map WorkerPid.pid ++ pids) tick.nowNs := by
  have hworkers := s.reads_readWorkers tick.nowNs tick.workers
  obtain ⟨pids, hpids, hself⟩ :=
    (s.readWorkers tick.nowNs tick.workers).1.reads_readSelf tick.nowNs tick.self
  rw [hworkers.selfPid_eq] at hpids
  exact ⟨pids, hpids, hworkers.trans hself⟩

theorem selfPid_readAll (s : HostStatsSampler) (tick : Tick) :
    (s.readAll tick).selfPid = s.selfPid := by
  obtain ⟨pids, -, h⟩ := s.reads_readAll tick
  exact h.selfPid_eq

theorem selfPid_sample (s : HostStatsSampler) (tick : Tick) :
    (s.sample tick).1.selfPid = s.selfPid :=
  s.selfPid_readAll tick

/-- **After a sample** only the workers and the control plane have baselines. -/
theorem keys_sample (s : HostStatsSampler) (tick : Tick) :
    ∀ pid ∈ (s.sample tick).1.lastSamples.keys,
      pid ∈ tick.workers.map WorkerPid.pid ∨ pid = s.selfPid := by
  intro pid hkey
  by_contra hno
  refine Dict.not_mem_keys.mpr ?_ hkey
  rw [fst_sample, get?_pruneStale, s.selfPid_readAll, if_neg]
  rw [List.mem_cons]
  exact fun h => hno h.symm

/-- **A sample keeps** no baseline of a pid it read in vain or did not read. -/
theorem kept_sample (s : HostStatsSampler) (tick : Tick) : Kept (s.sample tick).1 (some tick) := by
  intro pid hself habsent
  rw [s.selfPid_sample] at hself habsent
  rw [presentAfter, if_neg hself] at habsent
  rw [fst_sample, get?_pruneStale, s.selfPid_readAll]
  split
  · rename_i hlive
    have hpid := (List.mem_cons.mp hlive).resolve_left hself
    have hworkers := s.reads_readWorkers tick.nowNs tick.workers
    obtain ⟨pids, hpids, hreads⟩ :=
      (s.readWorkers tick.nowNs tick.workers).1.reads_readSelf tick.nowNs tick.self
    rw [hworkers.selfPid_eq] at hpids
    rw [readAll, hreads.others pid fun hq => hself (hpids pid hq)]
    exact s.get?_readWorkers_of_absent hpid false habsent
  · rfl

end Baselines

/-! ## One sample -/

section Sample

variable {s : HostStatsSampler} {previous : Option Tick} {tick : Tick}

theorem cpuByTarget_sample (s : HostStatsSampler) (tick : Tick) :
    (s.sample tick).2.cpuByTarget = (s.readWorkers tick.nowNs tick.workers).2 := rfl

theorem selfPct_eq_zero {nowNs : ℤ} {self : Option Reading} :
    (s.readSelf nowNs self).2.1 = 0 ↔ ∀ r, self = some r → ¬ s.Advanced s.selfPid r nowNs := by
  cases self with
  | none =>
    refine iff_of_true rfl ?_
    nofun
  | some r =>
    rw [readSelf, accountPct_eq_zero]
    refine ⟨fun h r' hr' => ?_, fun h => h r rfl⟩
    cases hr'
    exact h

/-- The control plane contributes nothing. -/
theorem cpuTotalPct_sample : (s.sample tick).2.cpuTotalPct =
      ((s.sample tick).2.cpuByTarget.map Prod.snd).sum ↔
    ∀ r, s.selfPid ∉ tick.workers.map WorkerPid.pid → tick.self = some r →
      ¬ s.Advanced s.selfPid r tick.nowNs := by
  have hreads := s.reads_readWorkers tick.nowNs tick.workers
  have htotal : (s.sample tick).2.cpuTotalPct =
      ((s.sample tick).2.cpuByTarget.map Prod.snd).sum +
        ((s.readWorkers tick.nowNs tick.workers).1.readSelf tick.nowNs tick.self).2.1 := rfl
  rw [htotal, add_eq_left, selfPct_eq_zero, hreads.selfPid_eq]
  refine forall_congr' fun r => ?_
  by_cases hself : s.selfPid ∈ tick.workers.map WorkerPid.pid
  · exact iff_of_true (fun _ => hreads.not_advanced hself r) fun hno => absurd hself hno
  · rw [hreads.advanced_iff hself]
    exact ⟨fun h _ => h, fun h => h hself⟩

/-- **A sample that is as it is meant to be** met the condition. -/
theorem Ok.sane (hok : Ok (s.sample tick).1 previous tick (s.sample tick).2) :
    s.Sane previous tick := by
  have hself := s.selfPid_sample tick
  refine ⟨fun before w after r hsplit hfresh hreading hgap => ?_,
    fun before w after r hsplit hfresh hreading hpid habsent => ?_,
    fun r hfresh hreading habsent => ?_⟩
  · have hplace := s.getElem?_readWorkers tick.nowNs before after w
    rw [← hsplit] at hplace
    have hover := (s.hundred_lt_contribution before w).mpr ⟨r, hreading, hfresh, hgap⟩
    exact absurd (hok.bounded _ (List.mem_of_getElem? hplace)).2 (not_le.mpr hover)
  · have hplace := s.getElem?_readWorkers tick.nowNs before after w
    rw [← hsplit] at hplace
    have hzero := hok.first before w after hsplit
      (by rw [present_of_not_mem hfresh, hself, hpid]; exact habsent) _ hplace
    rw [← hpid]
    exact (s.contribution_eq_zero before w).mp hzero r hreading hfresh
  · refine cpuTotalPct_sample.mp (hok.firstSelf ?_) r hfresh hreading
    rw [hself, present_of_not_mem hfresh]
    exact habsent

/-- **A sample under the condition** is as it is meant to be. -/
theorem Sane.ok (hsane : s.Sane previous tick) (hkept : s.Kept previous) :
    Ok (s.sample tick).1 previous tick (s.sample tick).2 := by
  refine ⟨fun e he => ?_, fun before w after hsplit habsent e hplace => ?_, fun habsent => ?_,
    fun pid hkey => ?_⟩
  · obtain ⟨before, w, after, hsplit, hshare⟩ := s.mem_readWorkers tick.workers he
    rw [hshare]
    refine ⟨readAndAccount_nonneg _ _ _ _, not_lt.mp fun hover => ?_⟩
    obtain ⟨r, hreading, hfresh, hgap⟩ := (s.hundred_lt_contribution before w).mp hover
    exact hsane.gap before w after r hsplit hfresh hreading hgap
  · rw [cpuByTarget_sample, hsplit, getElem?_readWorkers] at hplace
    obtain rfl := Option.some.inj hplace
    refine (s.contribution_eq_zero before w).mpr fun r hreading hfresh => ?_
    rw [s.selfPid_sample, present_of_not_mem hfresh] at habsent
    by_cases hpid : w.pid = s.selfPid
    · rw [hpid] at habsent ⊢
      exact hsane.stale before w after r hsplit hfresh hreading hpid habsent
    · -- the baseline of another pid went with its last reading
      rintro ⟨base, hbase, -⟩
      rw [hkept w.pid hpid habsent] at hbase
      cases hbase
  · rw [s.selfPid_sample] at habsent
    refine cpuTotalPct_sample.mpr fun r hfresh hreading => ?_
    rw [present_of_not_mem hfresh] at habsent
    exact hsane.staleSelf r hfresh hreading habsent
  · rw [s.selfPid_sample]
    exact s.keys_sample tick pid hkey

end Sample

namespace Sampling

theorem of_step {c c' : Sampling} {tick : Tick} (h : machine.step c tick = some c') :
    c' = ⟨(c.sampler.sample tick).1, c.last.map Prod.fst,
      some (tick, (c.sampler.sample tick).2)⟩ :=
  (Option.some.inj h).symm

theorem lastOk_some {sampler : HostStatsSampler} {previous : Option Tick} {tick : Tick}
    {sample : HostStatsSample} :
    LastOk ⟨sampler, previous, some (tick, sample)⟩ ↔ sampler.Ok previous tick sample := by
  refine ⟨fun h => h _ rfl, fun h last hlast => ?_⟩
  obtain rfl := Option.some.inj hlast
  exact h

/-- **Samples are as they are meant to be** along exactly the runs in which no worker is
believed to use more cores than there are, and the control plane is not read against a
baseline from before an absence. -/
theorem samples_ok_iff (s : HostStatsSampler) (ticks : List Tick) :
    machine.Always LastOk (init s) ticks ↔ machine.Meets NextSane (init s) ticks := by
  refine Machine.always_iff_meets
    (I := fun c => c.sampler.Kept (c.last.map Prod.fst) ∧ LastOk c) ?_ (fun _ h => h.2) ?_ ?_ ?_
  · rintro c tick c' ⟨hkept, -⟩ hsane hstep
    rw [of_step hstep]
    exact ⟨c.sampler.kept_sample tick, lastOk_some.mpr (hsane.ok hkept)⟩
  · rintro c tick c' - hinsane hstep hok
    rw [of_step hstep] at hok
    exact hinsane (lastOk_some.mp hok).sane
  · exact fun c tick hnone => absurd hnone (Option.some_ne_none _)
  · exact ⟨fun _ _ _ => rfl, fun _ h => by cases h⟩

/-- Four cores. -/
def fourCores : HostStatsSampler := ⟨100, 4, by decide, by decide, 1, ∅⟩

/-- A worker whose pid is given to another process, with 20 CPU seconds more. -/
def reused : List Tick :=
  [⟨0, [⟨⟨1, .primary⟩, 7, some ⟨1000, 0, 0⟩⟩], none, none⟩,
    ⟨2000000000, [⟨⟨1, .primary⟩, 7, some ⟨3000, 0, 0⟩⟩], none, none⟩]

/-- Ten of four cores: 250 % of the host. -/
theorem more_than_the_host : ¬ machine.Always LastOk (init fourCores) reused := by
  intro h
  have hlast := Machine.always_last h rfl
  have hshare := (lastOk_some.mp hlast).bounded (⟨1, .primary⟩, 250) (by decide +kernel)
  exact absurd hshare.2 (by norm_num)

end Sampling

end HostStatsSampler

end RestreamPlus
