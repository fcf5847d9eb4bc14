import Mathlib.Data.List.TakeWhile
import RestreamPlus.Domain.Target
import RestreamPlus.Lib.IntText

/-!
# Whose request it is (`app/auth/rate_limit.py`)

A trusted proxy says in `X-Forwarded-For` for whom it asks. The header is read from
the right: what a client sends stands to the left of what the proxies append.

`parse` is `ipaddress.ip_address`, which refuses most text, and `contains` the
membership of an address in a network.
-/

namespace RestreamPlus

namespace ClientIp

/-- `UNKNOWN_CLIENT_IP`. -/
def unknownClientIp : Text := "unknown".toList

/-- What `str.strip` removes; an integer is read without the four separators. -/
def isSpace (c : Char) : Bool := IntText.isSpace c || (0x1C ≤ c.toNat && c.toNat ≤ 0x1F)

/-- `str.strip`. -/
def strip (t : Text) : Text := ((t.dropWhile isSpace).reverse.dropWhile isSpace).reverse

/-- The hops of a header. -/
def hops (forwardedFor : Text) : List Text :=
  ((forwardedFor.splitOn ',').map strip).filter (· ≠ [])

example : hops "a, ,b".toList = ["a".toList, "b".toList] := by decide

section Parameters

variable {Addr Net : Type} (parse : Text → Option Addr) (contains : Net → Addr → Bool)

/-- `_is_valid_ip`. -/
def isValidIp (candidate : Text) : Bool := (parse candidate).isSome

/-- `_ip_in_networks`. -/
def ipInNetworks (candidate : Text) (networks : List Net) : Bool :=
  match parse candidate with
  | none => false
  | some addr => networks.any fun net => contains net addr

/-- `_strip_port`. -/
def stripPort (hop : Text) : Text :=
  if isValidIp parse hop then hop
  else if ['['] <+: hop ∧ ']' ∈ hop then hop.tail.takeWhile (· ≠ ']')
  else if hop.count ':' = 1 then
    if isValidIp parse (hop.takeWhile (· ≠ ':')) then hop.takeWhile (· ≠ ':') else hop
  else hop

/-- The loop over the hops, from the right. -/
def walk (trustedProxies : List Net) : List Text → Option Text
  | [] => none
  | hop :: rest =>
    let cleaned := stripPort parse hop
    if ¬ isValidIp parse cleaned then walk trustedProxies rest
    else if ¬ ipInNetworks parse contains cleaned trustedProxies then some cleaned
    else walk trustedProxies rest

/-- `extract_client_ip`. -/
def extractClientIp (peerIp forwardedFor : Option Text) (trustedProxies : Option (List Net)) :
    Text :=
  match peerIp with
  | none => unknownClientIp
  | some peer =>
    if peer = [] then unknownClientIp
    else
      match trustedProxies with
      | none => peer
      | some networks =>
        if networks.isEmpty || !ipInNetworks parse contains peer networks then peer
        else
          match forwardedFor with
          | none => peer
          | some header =>
            if header = [] then peer
            else (walk parse contains networks (hops header).reverse).getD peer

/-! ## What is meant -/

/-- The text is the address of a client: a valid IP outside the trusted networks. -/
def Outside (networks : List Net) (ip : Text) : Prop :=
  ∃ addr, parse ip = some addr ∧ ∀ net ∈ networks, contains net addr = false

/-- The address in a text: alone, in brackets with anything behind them, or before the only
colon. Brackets are looked for before a colon is, and neither in what is an address as it
stands. -/
inductive Writes : Text → Text → Prop where
  | bare {ip : Text} (hip : (parse ip).isSome) : Writes ip ip
  | bracketed {ip rest : Text} (hbare : parse ('[' :: (ip ++ ']' :: rest)) = none)
      (hip : ']' ∉ ip) : Writes ('[' :: (ip ++ ']' :: rest)) ip
  | port {host port : Text} (hbare : parse (host ++ ':' :: port) = none)
      (hbracket : ∀ ip rest, host ++ ':' :: port ≠ '[' :: (ip ++ ']' :: rest))
      (hhost : ':' ∉ host) (hport : ':' ∉ port) : Writes (host ++ ':' :: port) host

/-- The text without the white space around it. -/
def Trims (hop text : Text) : Prop :=
  ∃ left right, hop = left ++ (text ++ right) ∧ (∀ c ∈ left, isSpace c = true) ∧
    (∀ c ∈ right, isSpace c = true) ∧ (∀ c ∈ text.head?, isSpace c = false) ∧
    ∀ c ∈ text.getLast?, isSpace c = false

/-- **A hop names a client** when such an address is written in it, among white space. -/
def Names (networks : List Net) (hop ip : Text) : Prop :=
  ∃ text, text ≠ [] ∧ Trims hop text ∧ Writes parse text ip ∧ Outside parse contains networks ip

/-- A hop with the comma in front of it, and what stands to its left and to its right. -/
structure Hop (text front hop back : Text) : Prop where
  split : text = front ++ ',' :: (hop ++ back)
  comma : ',' ∉ hop
  next : back = [] ∨ back.head? = some ','

/-- The peer is there and in a trusted network. -/
structure TrustedPeer (peerIp : Option Text) (trustedProxies : Option (List Net)) (peer : Text)
    (networks : List Net) : Prop where
  present : peerIp = some peer
  ne : peer ≠ []
  proxies : trustedProxies = some networks
  inside : ∃ addr, parse peer = some addr ∧ ∃ net ∈ networks, contains net addr = true

/-- **The law of client addresses.** -/
structure Lawful (peerIp forwardedFor : Option Text) (trustedProxies : Option (List Net)) :
    Prop where
  /-- the header of an untrusted party is not read -/
  untrusted : (∀ peer networks,
      ¬ TrustedPeer parse contains peerIp trustedProxies peer networks) →
    ∀ forwardedFor', extractClientIp parse contains peerIp forwardedFor trustedProxies =
      extractClientIp parse contains peerIp forwardedFor' trustedProxies
  /-- the rightmost hop that names a client, or the peer -/
  trusted : ∀ peer networks, TrustedPeer parse contains peerIp trustedProxies peer networks →
    (∃ header front hop back, forwardedFor = some header ∧ Hop (',' :: header) front hop back ∧
      Names parse contains networks hop
        (extractClientIp parse contains peerIp forwardedFor trustedProxies) ∧
      ∀ front' hop' back' ip, Hop back front' hop' back' →
        ¬ Names parse contains networks hop' ip) ∨
    (∀ header front hop back ip, forwardedFor = some header →
      Hop (',' :: header) front hop back → ¬ Names parse contains networks hop ip) ∧
      extractClientIp parse contains peerIp forwardedFor trustedProxies = peer
  /-- what a client writes in front of it changes nothing -/
  prepended : ∀ text header, forwardedFor = some header →
    (∃ front hop back ip, Hop (',' :: header) front hop back ∧
      Names parse contains (trustedProxies.getD []) hop ip) →
    extractClientIp parse contains peerIp (some (text ++ ',' :: header)) trustedProxies =
      extractClientIp parse contains peerIp forwardedFor trustedProxies
  result : extractClientIp parse contains peerIp forwardedFor trustedProxies = unknownClientIp ∨
    peerIp = some (extractClientIp parse contains peerIp forwardedFor trustedProxies) ∨
    ∃ addr, parse (extractClientIp parse contains peerIp forwardedFor trustedProxies) = some addr

end Parameters

/-! ## The hops of a header -/

/-- The pieces of a text that begins with a comma. -/
def pieces : Text → List Text
  | [] => []
  | _ :: header => header.splitOn ','

/-- A text from its pieces. -/
theorem flatMap_splitOn (header : Text) :
    (header.splitOn ',').flatMap (',' :: ·) = ',' :: header ∧
      ∀ piece ∈ header.splitOn ',', ',' ∉ piece := by
  induction header with
  | nil => simp
  | cons c header ih =>
    rw [List.splitOn_cons_eq_if_modifyHead]
    by_cases hc : c = ','
    · subst hc
      simpa using ih
    · obtain ⟨piece, rest, hsplit⟩ := List.exists_cons_of_ne_nil (List.splitOn_ne_nil ',' header)
      rw [hsplit] at ih ⊢
      rw [if_neg (by simpa using hc), List.modifyHead_cons]
      refine ⟨by simpa using ih.1, fun piece' hmem => ?_⟩
      rcases List.mem_cons.mp hmem with rfl | hmem
      · simpa [Ne.symm hc] using ih.2 piece List.mem_cons_self
      · exact ih.2 piece' (List.mem_cons_of_mem piece hmem)

theorem pieces_flatMap {l : List Text} (h : ∀ piece ∈ l, ',' ∉ piece) :
    pieces (l.flatMap (',' :: ·)) = l := by
  induction l with
  | nil => rfl
  | cons piece l ih =>
    have hrest := ih fun piece' hmem => h piece' (List.mem_cons_of_mem piece hmem)
    have hpiece : ',' ∉ piece := h piece List.mem_cons_self
    rw [List.flatMap_cons]
    show (piece ++ l.flatMap (',' :: ·)).splitOn ',' = piece :: l
    cases l with
    | nil => rw [List.flatMap_nil, List.append_nil, List.splitOn_eq_singleton hpiece]
    | cons piece' l =>
      rw [List.flatMap_cons] at hrest ⊢
      rw [List.cons_append, List.splitOn_append_cons_self_of_not_mem hpiece]
      exact congrArg _ hrest

/-- A hop is a piece … -/
theorem Hop.pieces_eq {text front hop back : Text} (h : Hop text front hop back) :
    pieces text = pieces front ++ hop :: pieces back := by
  have hright : (hop ++ back).splitOn ',' = hop :: pieces back := by
    cases back with
    | nil => rw [List.append_nil, List.splitOn_eq_singleton h.comma, pieces]
    | cons c back =>
      have hc : c = ',' := by simpa using h.next
      rw [hc, List.splitOn_append_cons_self_of_not_mem h.comma, pieces]
  rw [h.split]
  cases front with
  | nil => exact hright
  | cons c front =>
    rw [List.cons_append, pieces, pieces, List.splitOn_append_cons_self, hright]

/-- … and every piece is one. -/
theorem exists_hop {header piece : Text} {l r : List Text}
    (h : header.splitOn ',' = l ++ piece :: r) :
    ∃ front back, Hop (',' :: header) front piece back ∧ pieces back = r := by
  obtain ⟨hjoin, hfree⟩ := flatMap_splitOn header
  rw [h] at hjoin hfree
  refine ⟨l.flatMap (',' :: ·), r.flatMap (',' :: ·), ⟨?_, hfree piece (by simp), ?_⟩,
    pieces_flatMap fun piece' hmem => hfree piece' (by simp [hmem])⟩
  · rw [← hjoin, List.flatMap_append, List.flatMap_cons, List.cons_append]
  · cases r with
    | nil => exact .inl rfl
    | cons piece' r => exact .inr rfl

theorem Hop.mem_pieces {text front hop back : Text} (h : Hop text front hop back) :
    hop ∈ pieces text := by
  rw [h.pieces_eq]
  simp

/-- `strip` removes the white space at both ends. -/
theorem trims_iff {hop text : Text} : Trims hop text ↔ strip hop = text := by
  constructor
  · rintro ⟨left, right, rfl, hleft, hright, hhead, hlast⟩
    have hfront : (left ++ (text ++ right)).dropWhile isSpace = (text ++ right).dropWhile isSpace := by
      rw [List.dropWhile_append, List.dropWhile_eq_nil_iff.mpr hleft]
      rfl
    cases text with
    | nil =>
      rw [strip, hfront, List.nil_append, List.dropWhile_eq_nil_iff.mpr hright]
      rfl
    | cons c text =>
      have hc : isSpace c = false := hhead c rfl
      have hback : ((c :: text).reverse.dropWhile isSpace) = (c :: text).reverse := by
        rcases hrev : (c :: text).reverse with _ | ⟨d, rest⟩
        · rfl
        · have hd : isSpace d = false := hlast d (by
            rw [← List.head?_reverse, hrev]
            rfl)
          rw [List.dropWhile_cons_of_neg (by simp [hd])]
      rw [strip, hfront, List.cons_append, List.dropWhile_cons_of_neg (by simp [hc]),
        ← List.cons_append, List.reverse_append, List.dropWhile_append,
        List.dropWhile_eq_nil_iff.mpr (fun d hd => hright d (List.mem_reverse.mp hd))]
      simp only [List.isEmpty_nil, if_true, hback, List.reverse_reverse]
  · rintro rfl
    refine ⟨hop.takeWhile isSpace, ((hop.dropWhile isSpace).reverse.takeWhile isSpace).reverse,
      ?_, fun c hc => List.mem_takeWhile_imp hc,
      fun c hc => List.mem_takeWhile_imp (List.mem_reverse.mp hc), fun c hc => ?_, fun c hc => ?_⟩
    · rw [strip, ← List.reverse_append, List.takeWhile_append_dropWhile, List.reverse_reverse,
        List.takeWhile_append_dropWhile]
    · have hsplit : hop.dropWhile isSpace = strip hop ++
          ((hop.dropWhile isSpace).reverse.takeWhile isSpace).reverse := by
        rw [strip, ← List.reverse_append, List.takeWhile_append_dropWhile, List.reverse_reverse]
      have hhead := List.head?_dropWhile_not isSpace hop
      rw [hsplit, List.head?_append, Option.mem_def.mp hc] at hhead
      simpa using hhead
    · rw [strip, List.getLast?_reverse] at hc
      have hlast := List.head?_dropWhile_not isSpace (hop.dropWhile isSpace).reverse
      rw [Option.mem_def.mp hc] at hlast
      simpa using hlast

/-- What is left of the first occurrence of a character. -/
theorem exists_cons_of_takeWhile {a : Char} {text : Text} (h : a ∈ text) :
    ∃ rest, text = text.takeWhile (· ≠ a) ++ a :: rest := by
  rcases hrest : text.dropWhile (· ≠ a) with _ | ⟨c, rest⟩
  · have hne := List.dropWhile_eq_nil_iff.mp hrest a h
    simp at hne
  · have hc := List.head?_dropWhile_not (· ≠ a) text
    rw [hrest] at hc
    have hca : c = a := by simpa using hc
    refine ⟨rest, ?_⟩
    conv_lhs => rw [← List.takeWhile_append_dropWhile (p := (· ≠ a)) (l := text), hrest, hca]

/-! ## The walk -/

section Walk

variable {Addr Net : Type} {parse : Text → Option Addr} {contains : Net → Addr → Bool}
  {networks : List Net}

variable (parse contains networks) in
/-- The client a hop names, if any. -/
def named (hop : Text) : Option Text :=
  if isValidIp parse (stripPort parse hop) ∧
    ¬ ipInNetworks parse contains (stripPort parse hop) networks then some (stripPort parse hop)
  else none

theorem outside_iff {ip : Text} : Outside parse contains networks ip ↔
    isValidIp parse ip ∧ ¬ ipInNetworks parse contains ip networks := by
  rw [Outside, isValidIp, ipInNetworks]
  cases parse ip with
  | none => simp
  | some addr => simp

/-- `_strip_port` finds the address that is written. -/
theorem stripPort_of_writes {text ip : Text} (hip : (parse ip).isSome) (h : Writes parse text ip) :
    stripPort parse text = ip := by
  cases h with
  | bare hvalid => exact if_pos hvalid
  | bracketed hbare hclosed =>
    rename_i rest
    rw [stripPort, if_neg (by simp [isValidIp, hbare]), if_pos (by simp), List.tail_cons,
      List.takeWhile_append_of_pos (fun c hc => by simpa using ne_of_mem_of_not_mem hc hclosed)]
    simp
  | port hbare hbracket hhost hport =>
    rename_i port
    have hleft : (ip ++ ':' :: port).takeWhile (· ≠ ':') = ip := by
      rw [List.takeWhile_append_of_pos
        (fun c hc => by simpa using ne_of_mem_of_not_mem hc hhost)]
      simp
    rw [stripPort, if_neg (by simp [isValidIp, hbare]), if_neg ?_, if_pos ?_, hleft,
      if_pos (show isValidIp parse ip = true from hip)]
    · rw [List.count_append, List.count_cons_self, List.count_eq_zero.mpr hhost,
        List.count_eq_zero.mpr hport]
    · -- an opening bracket and a closing one somewhere behind it
      rintro ⟨⟨tail, hopen⟩, hclosed⟩
      rw [← hopen] at hclosed
      obtain ⟨inner, rest, rfl⟩ := List.append_of_mem
        ((List.mem_cons.mp hclosed).resolve_left (by decide))
      exact hbracket inner rest hopen.symm

/-- An address that `_strip_port` finds is written. -/
theorem writes_of_stripPort {text ip : Text} (hip : (parse ip).isSome)
    (h : stripPort parse text = ip) : Writes parse text ip := by
  rw [stripPort] at h
  split at h
  · exact h ▸ .bare ‹_›
  · rename_i hbare
    have hnone : parse text = none := by simpa [isValidIp] using hbare
    split at h
    · rename_i hbracket
      obtain ⟨⟨tail, rfl⟩, hclosed⟩ := hbracket
      have hmem : ']' ∈ tail := (List.mem_cons.mp hclosed).resolve_left (by decide)
      obtain ⟨rest, hrest⟩ := exists_cons_of_takeWhile hmem
      rw [List.singleton_append, List.tail_cons] at h
      rw [h] at hrest
      rw [hrest] at hnone ⊢
      exact .bracketed hnone fun hin => by
        rw [← h] at hin
        simpa using List.mem_takeWhile_imp hin
    · rename_i hbracket
      split at h
      · rename_i hcount
        split at h
        · rename_i hvalid
          obtain ⟨port, hport⟩ := exists_cons_of_takeWhile
            (List.count_pos_iff.mp (hcount ▸ Nat.one_pos))
          rw [h] at hport
          have hhost : ':' ∉ ip := fun hin => by
            rw [← h] at hin
            simpa using List.mem_takeWhile_imp hin
          rw [hport] at hnone hcount hbracket ⊢
          refine .port hnone (fun inner rest heq => hbracket ?_) hhost ?_
          · rw [heq]
            exact ⟨⟨_, rfl⟩, by simp⟩
          · rw [List.count_append, List.count_cons_self, List.count_eq_zero.mpr hhost] at hcount
            exact List.count_eq_zero.mp (by omega)
        · exact absurd (h ▸ hip) (by simp [hnone])
      · exact absurd (h ▸ hip) (by simp [hnone])

theorem writes_iff {text ip : Text} (hip : (parse ip).isSome) :
    Writes parse text ip ↔ stripPort parse text = ip :=
  ⟨stripPort_of_writes hip, writes_of_stripPort hip⟩

variable (parse contains networks) in
/-- The client in a piece of the header. -/
def client (piece : Text) : Option Text :=
  if strip piece = [] then none else named parse contains networks (strip piece)

theorem client_eq_some {piece ip : Text} :
    client parse contains networks piece = some ip ↔ Names parse contains networks piece ip := by
  have hnamed : named parse contains networks (strip piece) = some ip ↔
      Writes parse (strip piece) ip ∧ Outside parse contains networks ip := by
    rw [named]
    constructor
    · intro h
      obtain ⟨hout, heq⟩ := Option.ite_none_right_eq_some.mp h
      obtain rfl := Option.some.inj heq
      exact ⟨(writes_iff hout.1).mpr rfl, outside_iff.mpr hout⟩
    · rintro ⟨hwrites, hout⟩
      have hvalid := outside_iff.mp hout
      rw [(writes_iff hvalid.1).mp hwrites, if_pos hvalid]
  constructor
  · intro h
    obtain ⟨hne, h⟩ := Option.ite_none_left_eq_some.mp h
    exact ⟨strip piece, hne, trims_iff.mpr rfl, hnamed.mp h⟩
  · rintro ⟨text, hne, htrims, h⟩
    obtain rfl := trims_iff.mp htrims
    rw [client, if_neg hne]
    exact hnamed.mpr h

theorem client_eq_none {piece : Text} : client parse contains networks piece = none ↔
    ∀ ip, ¬ Names parse contains networks piece ip := by
  rw [Option.eq_none_iff_forall_ne_some]
  exact forall_congr' fun ip => not_congr client_eq_some

/-- **The walk** stops at the first hop that names a client. -/
theorem walk_eq (l : List Text) :
    walk parse contains networks l = l.findSome? (named parse contains networks) := by
  induction l with
  | nil => rfl
  | cons hop rest ih =>
    rw [walk, List.findSome?_cons, named, ih]
    by_cases hvalid : isValidIp parse (stripPort parse hop)
    · by_cases hin : ipInNetworks parse contains (stripPort parse hop) networks
      · simp [hvalid, hin]
      · simp [hvalid, hin]
    · simp [hvalid]

/-- The walk over the hops of a header is one over its pieces. -/
theorem walk_hops (header : Text) : walk parse contains networks (hops header).reverse =
    (header.splitOn ',').reverse.findSome? (client parse contains networks) := by
  rw [walk_eq, hops, ← List.filter_reverse, ← List.map_reverse]
  induction (header.splitOn ',').reverse with
  | nil => rfl
  | cons piece l ih =>
    rw [List.map_cons, List.findSome?_cons, client]
    by_cases hblank : strip piece = []
    · simpa [hblank] using ih
    · rw [List.filter_cons_of_pos (by simpa using hblank), List.findSome?_cons, if_neg hblank, ih]

theorem walk_eq_some {header ip : Text}
    (h : walk parse contains networks (hops header).reverse = some ip) :
    ∃ front hop back, Hop (',' :: header) front hop back ∧ Names parse contains networks hop ip ∧
      ∀ front' hop' back' ip', Hop back front' hop' back' →
        ¬ Names parse contains networks hop' ip' := by
  rw [walk_hops, List.findSome?_eq_some_iff] at h
  obtain ⟨right, piece, left, heq, hclient, hright⟩ := h
  have hsplit : header.splitOn ',' = left.reverse ++ piece :: right.reverse := by
    rw [← List.reverse_reverse (header.splitOn ','), heq]
    simp
  obtain ⟨front, back, hhop, hback⟩ := exists_hop hsplit
  refine ⟨front, piece, back, hhop, client_eq_some.mp hclient, fun front' hop' back' ip' hhop' => ?_⟩
  have hmem : hop' ∈ pieces back := hhop'.mem_pieces
  rw [hback] at hmem
  exact client_eq_none.mp (hright hop' (List.mem_reverse.mp hmem)) ip'

theorem walk_eq_none {header : Text} : walk parse contains networks (hops header).reverse = none ↔
    ∀ front hop back ip, Hop (',' :: header) front hop back →
      ¬ Names parse contains networks hop ip := by
  rw [walk_hops, List.findSome?_eq_none_iff]
  constructor
  · intro h front hop back ip hhop
    exact client_eq_none.mp (h hop (List.mem_reverse.mpr hhop.mem_pieces)) ip
  · intro h piece hpiece
    obtain ⟨l, r, hsplit⟩ := List.append_of_mem (List.mem_reverse.mp hpiece)
    obtain ⟨front, back, hhop, -⟩ := exists_hop hsplit
    exact client_eq_none.mpr fun ip => h front piece back ip hhop

/-- The hops on the right come first. -/
theorem walk_append (text header : Text) :
    walk parse contains networks (hops (text ++ ',' :: header)).reverse =
      (walk parse contains networks (hops header).reverse).or
        (walk parse contains networks (hops text).reverse) := by
  rw [walk_hops, walk_hops, walk_hops, List.splitOn_append_cons_self, List.reverse_append,
    List.findSome?_append]

end Walk

/-! ## The law -/

section Law

variable {Addr Net : Type} {parse : Text → Option Addr} {contains : Net → Addr → Bool}
  {peerIp : Option Text} {trustedProxies : Option (List Net)} {peer : Text} {networks : List Net}

theorem inNetworks_iff {ip : Text} : ipInNetworks parse contains ip networks = true ↔
    ∃ addr, parse ip = some addr ∧ ∃ net ∈ networks, contains net addr = true := by
  rw [ipInNetworks]
  cases parse ip with
  | none => simp
  | some addr => simp

/-- **Behind a trusted peer** the header is walked. -/
theorem extract_trusted (h : TrustedPeer parse contains peerIp trustedProxies peer networks)
    (forwardedFor : Option Text) :
    extractClientIp parse contains peerIp forwardedFor trustedProxies =
      (walk parse contains networks (hops (forwardedFor.getD [])).reverse).getD peer := by
  obtain ⟨rfl, hne, rfl, hinside⟩ := h
  have hnonempty : networks.isEmpty = false := by
    obtain ⟨_, _, net, hnet, _⟩ := hinside
    exact List.isEmpty_eq_false_iff.mpr (List.ne_nil_of_mem hnet)
  have hnothing : hops [] = [] := by decide
  unfold extractClientIp
  dsimp only
  rw [if_neg hne, hnonempty, inNetworks_iff.mpr hinside]
  rcases forwardedFor with _ | header
  · rw [Option.getD_none, hnothing]
    rfl
  · by_cases hheader : header = []
    · subst hheader
      rw [Option.getD_some, hnothing]
      rfl
    · exact if_neg hheader

/-- **Otherwise** it is not looked at. -/
theorem extract_untrusted
    (h : ∀ peer networks, ¬ TrustedPeer parse contains peerIp trustedProxies peer networks)
    (forwardedFor : Option Text) :
    extractClientIp parse contains peerIp forwardedFor trustedProxies =
      if peerIp.getD [] = [] then unknownClientIp else peerIp.getD [] := by
  rcases peerIp with _ | peer
  · rfl
  · rw [Option.getD_some]
    unfold extractClientIp
    dsimp only
    by_cases hne : peer = []
    · rw [if_pos hne, if_pos hne]
    · rw [if_neg hne, if_neg hne]
      rcases trustedProxies with _ | networks
      · rfl
      · have hout : ipInNetworks parse contains peer networks = false :=
          Bool.eq_false_iff.mpr fun hin => h peer networks ⟨rfl, hne, rfl, inNetworks_iff.mp hin⟩
        dsimp only
        rw [hout, Bool.not_false, Bool.or_true, if_pos rfl]

theorem trusted_or_untrusted (parse : Text → Option Addr) (contains : Net → Addr → Bool)
    (peerIp : Option Text) (trustedProxies : Option (List Net)) :
    (∃ peer networks, TrustedPeer parse contains peerIp trustedProxies peer networks) ∨
      ∀ peer networks, ¬ TrustedPeer parse contains peerIp trustedProxies peer networks := by
  by_cases htrusted : ∃ peer networks,
      TrustedPeer parse contains peerIp trustedProxies peer networks
  · exact .inl htrusted
  · exact .inr fun peer networks h => htrusted ⟨peer, networks, h⟩

/-- **What stands to the left** of a hop that names a client is not reached. -/
theorem extract_prepended {text header : Text} (hnames : ∃ front hop back ip,
      Hop (',' :: header) front hop back ∧
        Names parse contains (trustedProxies.getD []) hop ip) :
    extractClientIp parse contains peerIp (some (text ++ ',' :: header)) trustedProxies =
      extractClientIp parse contains peerIp (some header) trustedProxies := by
  obtain ⟨peer, networks, h⟩ | h := trusted_or_untrusted parse contains peerIp trustedProxies
  · rw [extract_trusted h, extract_trusted h, Option.getD_some, Option.getD_some]
    rw [h.proxies, Option.getD_some] at hnames
    obtain ⟨front, hop, back, ip, hhop, hip⟩ := hnames
    rcases hwalk : walk parse contains networks (hops header).reverse with _ | ip'
    · exact absurd hip (walk_eq_none.mp hwalk front hop back ip hhop)
    · rw [walk_append, hwalk]
      rfl
  · rw [extract_untrusted h, extract_untrusted h]

/-- **The result** is the sentinel, the peer or a valid IP. -/
theorem extract_result : extractClientIp parse contains peerIp forwardedFor trustedProxies =
      unknownClientIp ∨
    peerIp = some (extractClientIp parse contains peerIp forwardedFor trustedProxies) ∨
    ∃ addr, parse (extractClientIp parse contains peerIp forwardedFor trustedProxies) =
      some addr := by
  obtain ⟨peer, networks, h⟩ | h := trusted_or_untrusted parse contains peerIp trustedProxies
  · rw [extract_trusted h]
    rcases hwalk : walk parse contains networks (hops (forwardedFor.getD [])).reverse with _ | ip
    · exact .inr (.inl h.present)
    · obtain ⟨_, _, _, _, ⟨_, _, _, _, addr, haddr, _⟩, _⟩ := walk_eq_some hwalk
      exact .inr (.inr ⟨addr, haddr⟩)
  · rw [extract_untrusted h]
    split
    · exact .inl rfl
    · rename_i hne
      rcases peerIp with _ | peer
      · exact absurd rfl hne
      · exact .inr (.inl rfl)

/-- **An untrusted party cannot steer the client address.** -/
theorem extract_client_ip_lawful (parse : Text → Option Addr) (contains : Net → Addr → Bool)
    (peerIp forwardedFor : Option Text) (trustedProxies : Option (List Net)) :
    Lawful parse contains peerIp forwardedFor trustedProxies := by
  refine ⟨fun h forwardedFor' => ?_, fun peer networks h => ?_,
    fun text header heq hnames => ?_, extract_result⟩
  · rw [extract_untrusted h, extract_untrusted h]
  · rw [extract_trusted h]
    rcases forwardedFor with _ | header
    · exact .inr ⟨nofun, rfl⟩
    · rw [Option.getD_some]
      rcases hwalk : walk parse contains networks (hops header).reverse with _ | ip
      · refine .inr ⟨fun header' front hop back ip heq => ?_, rfl⟩
        obtain rfl := Option.some.inj heq
        exact walk_eq_none.mp hwalk front hop back ip
      · obtain ⟨front, hop, back, hhop⟩ := walk_eq_some hwalk
        exact .inl ⟨header, front, hop, back, rfl, hhop⟩
  · rw [heq]
    exact extract_prepended hnames

/-! ### Two clients behind a proxy -/

/-- The addresses of the proxy and of two clients. -/
def knownAddress (text : Text) : Option Text :=
  if text = "10.0.0.2".toList ∨ text = "203.0.113.7".toList ∨ text = "2001:db8::1".toList then
    some text
  else none

/-- `10.0.0.0/8`. -/
def inNetwork (net addr : Text) : Bool := net.isPrefixOf addr

/-- The proxy writes the address with a port, or in brackets, behind what the client sent: the
client is found, whatever it sent. -/
theorem extract_client_ip_lawful_proxied :
    (∀ header ∈ ["203.0.113.7:5678, 10.0.0.2".toList, " [2001:db8::1]:443".toList], ∀ sent,
      extractClientIp knownAddress inNetwork (some "10.0.0.2".toList) (some (sent ++ ',' :: header))
          (some ["10.".toList]) =
        extractClientIp knownAddress inNetwork (some "10.0.0.2".toList) (some header)
          (some ["10.".toList])) ∧
    extractClientIp knownAddress inNetwork (some "10.0.0.2".toList)
        (some "203.0.113.7:5678, 10.0.0.2".toList) (some ["10.".toList]) = "203.0.113.7".toList ∧
      extractClientIp knownAddress inNetwork (some "10.0.0.2".toList)
        (some " [2001:db8::1]:443".toList) (some ["10.".toList]) = "2001:db8::1".toList := by
  refine ⟨fun header hheader sent => ?_, by decide +kernel, by decide +kernel⟩
  refine (extract_client_ip_lawful knownAddress inNetwork (some "10.0.0.2".toList) (some header)
    (some ["10.".toList])).prepended sent header rfl ?_
  rcases List.mem_pair.mp hheader with rfl | rfl
  · refine ⟨[], "203.0.113.7:5678".toList, ", 10.0.0.2".toList, "203.0.113.7".toList,
      ⟨rfl, by decide, .inr rfl⟩, "203.0.113.7:5678".toList, by decide,
      ⟨[], [], by decide +kernel, List.forall_mem_nil _, List.forall_mem_nil _,
        by simp [isSpace, IntText.isSpace, IntText.otherSpaces],
        by simp [isSpace, IntText.isSpace, IntText.otherSpaces]⟩, ?_, "203.0.113.7".toList,
      by decide, by decide⟩
    exact @Writes.port _ knownAddress "203.0.113.7".toList "5678".toList (by decide)
      (fun ip rest heq => by cases heq) (by decide) (by decide)
  · refine ⟨[], " [2001:db8::1]:443".toList, [], "2001:db8::1".toList,
      ⟨rfl, by decide, .inl rfl⟩, "[2001:db8::1]:443".toList, by decide,
      ⟨[' '], [], by decide +kernel, by simp [isSpace, IntText.isSpace], List.forall_mem_nil _,
        by simp [isSpace, IntText.isSpace, IntText.otherSpaces],
        by simp [isSpace, IntText.isSpace, IntText.otherSpaces]⟩, ?_, "2001:db8::1".toList,
      by decide, by decide⟩
    exact @Writes.bracketed _ knownAddress "2001:db8::1".toList ":443".toList (by decide) (by decide)

end Law

end ClientIp

end RestreamPlus
