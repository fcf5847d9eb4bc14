import Mathlib.Data.List.Induction
import Mathlib.Data.Rat.Floor
import RestreamPlus.Domain.Target
import RestreamPlus.Lib.Dict

/-!
# Reprompt grants (`app/auth/reprompts.py`)

A grant is issued for a user and a scope, consumed once, and expires. Consuming it for
another user or scope burns it as well. `prune_expired` keeps the store small.

`unclaimed` is the store that is never pruned and forgets nothing but what was consumed;
`Agrees` relates the two, and `reprompts_lawful` reads the history off it.
-/

namespace RestreamPlus

/-- `RepromptScope`. -/
inductive RepromptScope : Type where
  | revealStreamKey
  | regenerateIngestKey
  | rotatePassphrase
  | changePassword
  | deleteTarget
  | revokeApiToken
  | clearCredential
  | revealIngestKey
  deriving DecidableEq

/-- `RepromptGrant`. -/
structure RepromptGrant : Type where
  userId : Text
  scope : RepromptScope
  issuedAt : ℚ

/-- `RepromptStore`; its constructor refuses other times to live. -/
structure RepromptStore : Type where
  ttl : ℚ
  ttl_pos : 0 < ttl
  grants : Dict Text RepromptGrant

namespace RepromptStore

/-- `RepromptStore()`. -/
def default : RepromptStore := ⟨60, by norm_num, ∅⟩

/-- `issue` with this grant id; `none` is the `ValueError` for an empty user. -/
def issue (s : RepromptStore) (grantId userId : Text) (scope : RepromptScope) (now : ℚ) :
    Option RepromptStore :=
  if userId = [] then none
  else some { s with grants := s.grants.insert grantId ⟨userId, scope, now⟩ }

/-- `consume`. -/
def consume (s : RepromptStore) (grantId userId : Text) (scope : RepromptScope) (now : ℚ) :
    RepromptStore × Bool :=
  match s.grants.get? grantId with
  | none => (s, false)
  | some grant =>
    ({ s with grants := s.grants.erase grantId },
      if s.ttl ≤ now - grant.issuedAt then false
      else decide (grant.userId = userId) && decide (grant.scope = scope))

/-- `prune_expired`, and how many grants it dropped. -/
def pruneExpired (s : RepromptStore) (now : ℚ) : RepromptStore × ℕ :=
  let threshold := now - s.ttl
  ({ s with grants := s.grants.filterValues fun grant => threshold < grant.issuedAt },
    s.grants.values.countP fun grant => grant.issuedAt ≤ threshold)

/-! ## Calls -/

/-- A call, at an instant. -/
inductive Call : Type where
  | issue (now : ℚ) (grantId userId : Text) (scope : RepromptScope)
  | consume (now : ℚ) (grantId userId : Text) (scope : RepromptScope)
  | pruneExpired (now : ℚ)

namespace Call

def time : Call → ℚ
  | .issue now _ _ _ | .consume now _ _ _ | .pruneExpired now => now

/-- The id of the grant that is issued. -/
def issued : Call → Option Text
  | .issue _ grantId userId _ => if userId = [] then none else some grantId
  | .consume _ _ _ _ | .pruneExpired _ => none

/-- The call consumes this grant. -/
def Consumes (grantId : Text) : Call → Prop
  | .consume _ grantId' _ _ => grantId' = grantId
  | .issue _ _ _ _ | .pruneExpired _ => False

def isPrune : Call → Bool
  | .pruneExpired _ => true
  | .issue _ _ _ _ | .consume _ _ _ _ => false

/-- The store after the call, and the result of a `consume`. -/
def run (s : RepromptStore) : Call → RepromptStore × Option Bool
  | .issue now grantId userId scope => ((s.issue grantId userId scope now).getD s, none)
  | .consume now grantId userId scope =>
    ((s.consume grantId userId scope now).1, some (s.consume grantId userId scope now).2)
  | .pruneExpired now => ((s.pruneExpired now).1, none)

end Call

/-- The store after these calls. -/
def runAll (s : RepromptStore) (calls : List Call) : RepromptStore :=
  calls.foldl (fun s call => (call.run s).1) s

/-- What the `consume` calls among these return. -/
def results (s : RepromptStore) : List Call → List Bool
  | [] => []
  | call :: calls => (call.run s).2.toList ++ results (call.run s).1 calls

/-- The clock does not go back. -/
def Timely (calls : List Call) : Prop := (calls.map Call.time).Pairwise (· ≤ ·)

/-- No grant id is issued twice. -/
def Fresh (calls : List Call) : Prop := (calls.filterMap Call.issued).Nodup

instance (calls : List Call) : Decidable (Timely calls) := by unfold Timely; infer_instance

instance (calls : List Call) : Decidable (Fresh calls) := by unfold Fresh; infer_instance

/-- **Reprompt grants are single-use, scoped and timely** along these calls on a store. -/
structure Lawful (s : RepromptStore) (calls : List Call) : Prop where
  /-- what a `consume` returns -/
  consumed : ∀ before t g u scope after, calls = before ++ .consume t g u scope :: after →
    (((s.runAll before).consume g u scope t).2 = true ↔
      ∃ front t₀ back, before = front ++ .issue t₀ g u scope :: back ∧ u ≠ [] ∧
        t - s.ttl < t₀ ∧ ∀ call ∈ back, ¬ call.Consumes g)
  /-- pruning at other instants changes no result -/
  pruning : ∀ calls', Timely calls' →
    (calls'.filter fun call => !call.isPrune) = calls.filter (fun call => !call.isPrune) →
      s.results calls' = s.results calls
  /-- what is left after a prune can be consumed -/
  pruned : ∀ before t after, calls = before ++ .pruneExpired t :: after →
    ∀ g grant, (s.runAll (before ++ [.pruneExpired t])).grants.get? g = some grant →
      ((s.runAll (before ++ [.pruneExpired t])).consume g grant.userId grant.scope t).2 = true

/-! ## The grants that were not consumed -/

/-- A call, as far as the history of grants goes. -/
def note (m : Text → Option RepromptGrant) : Call → Text → Option RepromptGrant
  | .issue now grantId userId scope =>
    if userId = [] then m else Function.update m grantId (some ⟨userId, scope, now⟩)
  | .consume _ grantId _ _ => Function.update m grantId none
  | .pruneExpired _ => m

/-- The grants that were issued and not consumed, expired or not. -/
def unclaimed (calls : List Call) : Text → Option RepromptGrant := calls.foldl note fun _ => none

/-- What a `consume` returns if nothing is pruned. -/
def accepts (ttl : ℚ) (m : Text → Option RepromptGrant) (g u : Text) (scope : RepromptScope)
    (now : ℚ) : Bool :=
  match m g with
  | none => false
  | some grant =>
    decide (now - ttl < grant.issuedAt) && (decide (grant.userId = u) && decide (grant.scope = scope))

/-- The result of a `consume` if nothing is pruned. -/
def answer (ttl : ℚ) (m : Text → Option RepromptGrant) : Call → Option Bool
  | .consume now g u scope => some (accepts ttl m g u scope now)
  | .issue _ _ _ _ | .pruneExpired _ => none

/-- What the `consume` calls among these return if nothing is pruned. -/
def expected (ttl : ℚ) (m : Text → Option RepromptGrant) : List Call → List Bool
  | [] => []
  | call :: calls => (answer ttl m call).toList ++ expected ttl (note m call) calls

/-- **The store holds what was not consumed**, except for grants that have expired. -/
def Agrees (s : RepromptStore) (m : Text → Option RepromptGrant) (now : ℚ) : Prop :=
  ∀ g, s.grants.get? g = m g ∨
    s.grants.get? g = none ∧ ∃ grant, m g = some grant ∧ grant.issuedAt ≤ now - s.ttl

section Step

variable {s : RepromptStore} {m : Text → Option RepromptGrant} {now t : ℚ}

theorem Agrees.mono (h : Agrees s m now) (hle : now ≤ t) : Agrees s m t := by
  intro g
  refine (h g).imp_right fun ⟨hnone, grant, hgrant, hold⟩ => ⟨hnone, grant, hgrant, ?_⟩
  exact hold.trans (sub_le_sub_right hle _)

/-- **The two expiry tests agree**: whether an expired grant was pruned makes no
difference. -/
theorem consume_eq (h : Agrees s m now) (hle : now ≤ t) (g u : Text) (scope : RepromptScope) :
    (s.consume g u scope t).2 = accepts s.ttl m g u scope t := by
  rw [consume, accepts]
  rcases h.mono hle g with heq | ⟨hnone, grant, hgrant, hold⟩
  · rw [heq]
    cases m g with
    | none => rfl
    | some grant =>
      dsimp only
      by_cases hexpired : s.ttl ≤ t - grant.issuedAt
      · have hno : ¬ t - s.ttl < grant.issuedAt := not_lt.mpr (by linarith)
        rw [if_pos hexpired, decide_eq_false hno, Bool.false_and]
      · have hyes : t - s.ttl < grant.issuedAt := by linarith
        rw [if_neg hexpired, decide_eq_true hyes, Bool.true_and]
  · rw [hnone, hgrant]
    dsimp only
    rw [decide_eq_false (not_lt.mpr hold), Bool.false_and]

theorem ttl_run (call : Call) : (call.run s).1.ttl = s.ttl := by
  cases call with
  | issue now g u scope =>
    rw [Call.run, issue]
    split <;> rfl
  | consume now g u scope =>
    rw [Call.run, consume]
    split <;> rfl
  | pruneExpired now => rfl

theorem Agrees.issue (h : Agrees s m now) (t : ℚ) (g u : Text) (scope : RepromptScope) :
    Agrees ((Call.issue t g u scope).run s).1 (note m (.issue t g u scope)) now := by
  rw [Call.run, RepromptStore.issue, note]
  by_cases hu : u = []
  · rw [if_pos hu, if_pos hu]
    exact h
  · rw [if_neg hu, if_neg hu]
    intro g'
    by_cases hg : g' = g
    · refine .inl ?_
      rw [hg, Function.update_self]
      exact Dict.get?_insert_self _ _ _
    · rw [Function.update_of_ne hg]
      refine (h g').imp (fun heq => ?_) fun ⟨hnone, hexpired⟩ => ⟨?_, hexpired⟩
      · exact (Dict.get?_insert_ne _ _ hg).trans heq
      · exact (Dict.get?_insert_ne _ _ hg).trans hnone

/-- Whatever it answers, a `consume` burns the grant. -/
theorem Agrees.consume (h : Agrees s m now) (t : ℚ) (g u : Text) (scope : RepromptScope) :
    Agrees ((Call.consume t g u scope).run s).1 (note m (.consume t g u scope)) now := by
  rw [Call.run, RepromptStore.consume, note]
  intro g'
  by_cases hg : g' = g
  · refine .inl ?_
    rw [hg, Function.update_self]
    cases hget : s.grants.get? g with
    | none => exact hget
    | some grant => exact Dict.get?_erase_self _ _
  · rw [Function.update_of_ne hg]
    cases hget : s.grants.get? g with
    | none => exact h g'
    | some grant =>
      refine (h g').imp (fun heq => ?_) fun ⟨hnone, hexpired⟩ => ⟨?_, hexpired⟩
      · exact (Dict.get?_erase_ne _ hg).trans heq
      · exact (Dict.get?_erase_ne _ hg).trans hnone

/-- What is pruned has expired. -/
theorem Agrees.pruneExpired (h : Agrees s m now) :
    Agrees (s.pruneExpired now).1 m now := by
  intro g
  have hget : (s.pruneExpired now).1.grants.get? g =
      (s.grants.get? g).filter fun grant => now - s.ttl < grant.issuedAt :=
    Dict.get?_filterValues _ _ _
  rw [hget]
  rcases h g with heq | ⟨hnone, hexpired⟩
  · rw [heq]
    cases hm : m g with
    | none => exact .inl rfl
    | some grant =>
      by_cases hkeep : now - s.ttl < grant.issuedAt
      · exact .inl (Option.filter_some_pos (decide_eq_true hkeep))
      · exact .inr ⟨Option.filter_some_neg (decide_eq_false hkeep), grant, rfl, not_lt.mp hkeep⟩
  · rw [hnone]
    exact .inr ⟨rfl, hexpired⟩

/-- **A call.** -/
theorem Agrees.run (h : Agrees s m now) {call : Call} (hle : now ≤ call.time) :
    Agrees (call.run s).1 (note m call) call.time := by
  have h := h.mono hle
  cases call with
  | issue t g u scope => exact h.issue t g u scope
  | consume t g u scope => exact h.consume t g u scope
  | pruneExpired t => exact h.pruneExpired

end Step

/-! ## Runs -/

section Runs

variable {s : RepromptStore} {m : Text → Option RepromptGrant} {now : ℚ} {calls : List Call}

theorem ttl_runAll (s : RepromptStore) (calls : List Call) : (s.runAll calls).ttl = s.ttl := by
  induction calls generalizing s with
  | nil => rfl
  | cons call calls ih => exact (ih _).trans (ttl_run call)

/-- **Calls in time.** -/
theorem Agrees.runAll (h : Agrees s m now) (hfirst : ∀ call ∈ calls, now ≤ call.time)
    (htimely : Timely calls) {t : ℚ} (hle : now ≤ t) (hlast : ∀ call ∈ calls, call.time ≤ t) :
    Agrees (s.runAll calls) (calls.foldl note m) t := by
  induction calls generalizing s m now with
  | nil => exact h.mono hle
  | cons call calls ih =>
    rw [Timely, List.map_cons, List.pairwise_cons] at htimely
    have hrest : ∀ call' ∈ calls, call'.time ≤ t := fun call' hcall' =>
      hlast call' (List.mem_cons_of_mem _ hcall')
    exact ih (h.run (hfirst call List.mem_cons_self))
      (fun call' hcall' => htimely.1 _ (List.mem_map_of_mem hcall')) htimely.2
      (hlast call List.mem_cons_self) hrest

theorem results_eq (h : Agrees s m now) (hfirst : ∀ call ∈ calls, now ≤ call.time)
    (htimely : Timely calls) : s.results calls = expected s.ttl m calls := by
  induction calls generalizing s m now with
  | nil => rfl
  | cons call calls ih =>
    rw [Timely, List.map_cons, List.pairwise_cons] at htimely
    have hle := hfirst call List.mem_cons_self
    have hanswer : (call.run s).2 = answer s.ttl m call := by
      cases call with
      | issue t g u scope => rfl
      | consume t g u scope => exact congrArg some (consume_eq h hle g u scope)
      | pruneExpired t => rfl
    rw [results, expected, hanswer, ih (h.run hle)
      (fun call' hcall' => htimely.1 _ (List.mem_map_of_mem hcall')) htimely.2, ttl_run]

/-- Pruning is not a part of the history. -/
theorem expected_filter (ttl : ℚ) (m : Text → Option RepromptGrant) (calls : List Call) :
    expected ttl m (calls.filter fun call => !call.isPrune) = expected ttl m calls := by
  induction calls generalizing m with
  | nil => rfl
  | cons call calls ih =>
    cases call with
    | issue t g u scope =>
      rw [List.filter_cons_of_pos rfl, expected, expected, ih]
    | consume t g u scope =>
      rw [List.filter_cons_of_pos rfl, expected, expected, ih]
    | pruneExpired t =>
      rw [List.filter_cons_of_neg Bool.false_ne_true, ih]
      rfl

end Runs

/-! ## Histories -/

section Histories

variable {s : RepromptStore} {m : Text → Option RepromptGrant} {calls : List Call} {t t₀ : ℚ}
  {g u : Text} {scope : RepromptScope}

theorem accepts_iff {ttl : ℚ} : accepts ttl m g u scope t = true ↔
    ∃ t₀, m g = some ⟨u, scope, t₀⟩ ∧ t - ttl < t₀ := by
  rw [accepts]
  cases m g with
  | none => simp
  | some grant =>
    obtain ⟨userId, scope', issuedAt⟩ := grant
    simp only [Bool.and_eq_true, decide_eq_true_eq, Option.some.injEq, RepromptGrant.mk.injEq]
    constructor
    · rintro ⟨hlive, rfl, rfl⟩
      exact ⟨issuedAt, ⟨rfl, rfl, rfl⟩, hlive⟩
    · rintro ⟨t₀, ⟨rfl, rfl, rfl⟩, hlive⟩
      exact ⟨hlive, rfl, rfl⟩

theorem unclaimed_concat (calls : List Call) (call : Call) :
    unclaimed (calls ++ [call]) = note (unclaimed calls) call :=
  List.foldl_concat _ _ _ _

/-- Calls that neither issue a grant nor consume it. -/
theorem foldl_note_of_untouched (h : ∀ call ∈ calls, ¬ call.Consumes g ∧ call.issued ≠ some g) :
    calls.foldl note m g = m g := by
  induction calls generalizing m with
  | nil => rfl
  | cons call calls ih =>
    rw [List.foldl_cons, ih fun call' hcall' => h call' (List.mem_cons_of_mem _ hcall')]
    obtain ⟨hconsume, hissue⟩ := h call List.mem_cons_self
    cases call with
    | issue t g' u scope =>
      rw [note]
      by_cases hu : u = []
      · rw [if_pos hu]
      · rw [if_neg hu, Function.update_of_ne]
        rintro rfl
        exact hissue (if_neg hu)
    | consume t g' u scope =>
      rw [note, Function.update_of_ne]
      rintro rfl
      exact hconsume rfl
    | pruneExpired t => rfl

/-- A grant that is there was issued, and not consumed since. -/
theorem exists_issue (h : unclaimed calls g = some ⟨u, scope, t₀⟩) :
    ∃ front back, calls = front ++ .issue t₀ g u scope :: back ∧ u ≠ [] ∧
      ∀ call ∈ back, ¬ call.Consumes g := by
  induction calls using List.reverseRecOn with
  | nil => cases h
  | append_singleton calls call ih =>
    rw [unclaimed_concat] at h
    -- a call that leaves the grant alone comes behind
    have hbehind (hold : unclaimed calls g = some ⟨u, scope, t₀⟩) (hno : ¬ call.Consumes g) :
        ∃ front back, calls ++ [call] = front ++ .issue t₀ g u scope :: back ∧ u ≠ [] ∧
          ∀ call ∈ back, ¬ call.Consumes g := by
      obtain ⟨front, back, rfl, hu, hback⟩ := ih hold
      refine ⟨front, back ++ [call], by rw [List.append_assoc]; rfl, hu, fun call' hcall' => ?_⟩
      rcases List.mem_append.mp hcall' with hcall' | hcall'
      · exact hback call' hcall'
      · rw [List.mem_singleton.mp hcall']
        exact hno
    cases call with
    | issue t g' u' scope' =>
      rw [note] at h
      by_cases hu : u' = []
      · rw [if_pos hu] at h
        exact hbehind h id
      · rw [if_neg hu] at h
        by_cases hg : g = g'
        · rw [hg, Function.update_self] at h
          cases h
          exact ⟨calls, [], by rw [hg], hu, fun _ h => absurd h List.not_mem_nil⟩
        · rw [Function.update_of_ne hg] at h
          exact hbehind h id
    | consume t g' u' scope' =>
      rw [note] at h
      by_cases hg : g = g'
      · rw [hg, Function.update_self] at h
        cases h
      · rw [Function.update_of_ne hg] at h
        exact hbehind h (Ne.symm hg)
    | pruneExpired t => exact hbehind h id

/-- **The history of a grant**, when ids are fresh. -/
theorem unclaimed_iff (hfresh : Fresh calls) : unclaimed calls g = some ⟨u, scope, t₀⟩ ↔
    ∃ front back, calls = front ++ .issue t₀ g u scope :: back ∧ u ≠ [] ∧
      ∀ call ∈ back, ¬ call.Consumes g := by
  refine ⟨exists_issue, ?_⟩
  rintro ⟨front, back, rfl, hu, hback⟩
  have hissued : (Call.issue t₀ g u scope).issued = some g := if_neg hu
  rw [Fresh, List.filterMap_append, List.filterMap_cons_some hissued] at hfresh
  have hnotin : g ∉ back.filterMap Call.issued :=
    (List.nodup_cons.mp (List.nodup_append.mp hfresh).2.1).1
  have huntouched : ∀ call ∈ back, ¬ call.Consumes g ∧ call.issued ≠ some g := fun call hcall =>
    ⟨hback call hcall, fun h => hnotin (List.mem_filterMap.mpr ⟨call, hcall, h⟩)⟩
  rw [unclaimed, List.foldl_append, List.foldl_cons, foldl_note_of_untouched huntouched, note,
    if_neg hu, Function.update_self]

/-! ## The law -/

theorem agrees_init (hs : s.grants = ∅) (now : ℚ) : Agrees s (fun _ => none) now := by
  intro g
  rw [hs]
  exact .inl (Dict.get?_empty g)

theorem first_le {call : Call} (htimely : Timely (call :: calls)) :
    ∀ call' ∈ call :: calls, call.time ≤ call'.time := by
  rw [Timely, List.map_cons, List.pairwise_cons] at htimely
  intro call' hcall'
  rcases List.mem_cons.mp hcall' with rfl | hcall'
  · exact le_rfl
  · exact htimely.1 _ (List.mem_map_of_mem hcall')

theorem agrees_runAll (hs : s.grants = ∅) (htimely : Timely calls)
    (hlast : ∀ call ∈ calls, call.time ≤ t) : Agrees (s.runAll calls) (unclaimed calls) t := by
  cases calls with
  | nil => exact agrees_init hs t
  | cons call calls =>
    exact (agrees_init hs call.time).runAll (first_le htimely) htimely
      (hlast call List.mem_cons_self) hlast

theorem results_eq_expected (hs : s.grants = ∅) (htimely : Timely calls) :
    s.results calls = expected s.ttl (fun _ => none) calls := by
  cases calls with
  | nil => rfl
  | cons call calls =>
    exact results_eq (agrees_init hs call.time) (first_le htimely) htimely

/-- **Reprompt grants are single-use, scoped and timely**, along every sequence of
calls. -/
theorem reprompts_lawful (s : RepromptStore) (calls : List Call) (hs : s.grants = ∅)
    (htimely : Timely calls) (hfresh : Fresh calls) : Lawful s calls := by
  refine ⟨?_, fun calls' htimely' heq => ?_, ?_⟩
  · rintro before t g u scope after rfl
    rw [Timely, List.map_append, List.map_cons, List.pairwise_append] at htimely
    obtain ⟨hbefore, -, hle⟩ := htimely
    have hagrees : Agrees (s.runAll before) (unclaimed before) t :=
      agrees_runAll hs hbefore fun call hcall => hle _ (List.mem_map_of_mem hcall) t
        List.mem_cons_self
    rw [Fresh, List.filterMap_append] at hfresh
    rw [consume_eq hagrees le_rfl, ttl_runAll, accepts_iff]
    simp only [unclaimed_iff (List.nodup_append.mp hfresh).1]
    constructor
    · rintro ⟨t₀, ⟨front, back, heq, hu, hback⟩, hlive⟩
      exact ⟨front, t₀, back, heq, hu, hlive, hback⟩
    · rintro ⟨front, t₀, back, heq, hu, hlive, hback⟩
      exact ⟨t₀, ⟨front, back, heq, hu, hback⟩, hlive⟩
  · rw [results_eq_expected hs htimely', results_eq_expected hs htimely, ← expected_filter, heq,
      expected_filter]
  · rintro before t after - g grant hgrant
    have hget : (s.runAll (before ++ [.pruneExpired t])).grants.get? g =
        ((s.runAll before).grants.get? g).filter fun grant =>
          t - (s.runAll before).ttl < grant.issuedAt := by
      rw [runAll, List.foldl_concat]
      exact Dict.get?_filterValues _ _ _
    have httl : (s.runAll (before ++ [.pruneExpired t])).ttl = (s.runAll before).ttl := by
      rw [ttl_runAll, ttl_runAll]
    have hlive : t - (s.runAll before).ttl < grant.issuedAt :=
      of_decide_eq_true (Option.filter_eq_some_iff.mp (hget.symm.trans hgrant)).2
    rw [consume, hgrant]
    dsimp only
    rw [if_neg (by rw [httl]; linarith), decide_eq_true rfl, decide_eq_true rfl]
    rfl

/-- A grant is consumed, another one burned, and a third one pruned. -/
def sampleCalls : List Call :=
  [.issue 0 ['1'] ['u'] .deleteTarget, .issue 1 ['2'] ['u'] .deleteTarget,
    .consume 2 ['1'] ['u'] .deleteTarget, .consume 3 ['2'] ['u'] .rotatePassphrase,
    .issue 4 ['3'] ['u'] .clearCredential, .pruneExpired 64]

theorem reprompts_lawful_sampleCalls : Lawful .default sampleCalls :=
  reprompts_lawful .default sampleCalls rfl (by decide +kernel) (by decide)

end Histories

end RepromptStore

end RestreamPlus
