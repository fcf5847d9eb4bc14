import Mathlib.Data.List.Sort
import RestreamPlus.Fanout.Redaction
import RestreamPlus.Lib.Fencing
import RestreamPlus.Lib.Utf8
import RestreamPlus.LoggingSetup

/-!
# The redaction processor (`app/logging_setup.py`)

Every event passes through it. The secrets are replaced one after the other, the longest
first and secrets of one length as the set happens to give them; a value is walked to
its strings.

`Redacted` says what may become of an event; `log_redaction` that nothing else does.
-/

namespace RestreamPlus

open Replace

/-- A value of an event dict. -/
inductive LogValue (K O : Type) : Type where
  | str (value : Text) : LogValue K O
  | bytes (value : Bytes) : LogValue K O
  | dict (items : List (K × LogValue K O)) : LogValue K O
  | list (items : List (LogValue K O)) : LogValue K O
  | tuple (items : List (LogValue K O)) : LogValue K O
  /-- a value of any other type -/
  | other (value : O) : LogValue K O

namespace LogRedaction

/-- `_redact_string`; the secrets are listed as the set is iterated. -/
def redactString (secrets : List Text) (value : Text) : Text :=
  (secrets.insertionSort fun a b => b.length ≤ a.length).foldl
    (fun out secret =>
      if secret <:+: out then replaceAll secret redactionPlaceholder out else out) value

/-- `_redact_value` on bytes. -/
def redactBytes (secrets : List Text) (value : Bytes) : Bytes :=
  match Utf8.decode value with
  | none => value
  | some decoded =>
    if redactString secrets decoded = decoded then value
    else Utf8.encode (redactString secrets decoded)

section Values

variable {K O : Type} (secrets : List Text)

mutual

/-- `_redact_value`. -/
def redactValue : LogValue K O → LogValue K O
  | .str value => .str (redactString secrets value)
  | .bytes value => .bytes (redactBytes secrets value)
  | .dict items => .dict (redactEntries items)
  | .list items => .list (redactItems items)
  | .tuple items => .tuple (redactItems items)
  | .other value => .other value

def redactItems : List (LogValue K O) → List (LogValue K O)
  | [] => []
  | value :: items => redactValue value :: redactItems items

def redactEntries : List (K × LogValue K O) → List (K × LogValue K O)
  | [] => []
  | (key, value) :: entries => (key, redactValue value) :: redactEntries entries

end

/-- What `make_redaction_processor` returns, on the items of an event dict. -/
def processor (event : List (K × LogValue K O)) : List (K × LogValue K O) :=
  if secrets = [] then event else redactEntries secrets event

end Values

example : redactString ["abcdefghijkl".toList, "0abcdefghijkl".toList]
    "k=0abcdefghijkl;".toList = "k=***REDACTED***;".toList := by decide

/-! ## What may become of an event -/

/-- **A text and its redaction.** -/
structure Hidden (secrets : Finset Text) (t m : Text) : Prop where
  /-- no secret is left -/
  gone : ∀ s ∈ secrets, ¬ s <:+: m
  /-- disjoint secrets are replaced, and the rest is kept -/
  fences : Fences (· ∈ secrets) redactionPlaceholder t m
  unchanged : (∀ s ∈ secrets, ¬ s <:+: t) → m = t

section Redacted

variable {K O : Type} (secrets : Finset Text)

mutual

/-- **A value and its redaction**: the same containers and keys, and the redaction of
every text in them. -/
inductive Redacted : LogValue K O → LogValue K O → Prop where
  | str {t m : Text} : Hidden secrets t m → Redacted (.str t) (.str m)
  | bytes {b b' : Bytes} {t m : Text} : Utf8.decode b = some t → Utf8.decode b' = some m →
    Hidden secrets t m → (m = t → b' = b) → Redacted (.bytes b) (.bytes b')
  /-- not UTF-8 -/
  | raw {b : Bytes} : Utf8.decode b = none → Redacted (.bytes b) (.bytes b)
  | dict {items items' : List (K × LogValue K O)} : RedactedEntries items items' →
    Redacted (.dict items) (.dict items')
  | list {items items' : List (LogValue K O)} : RedactedItems items items' →
    Redacted (.list items) (.list items')
  | tuple {items items' : List (LogValue K O)} : RedactedItems items items' →
    Redacted (.tuple items) (.tuple items')
  | other (value : O) : Redacted (.other value) (.other value)

inductive RedactedItems : List (LogValue K O) → List (LogValue K O) → Prop where
  | nil : RedactedItems [] []
  | cons {v v' : LogValue K O} {vs vs' : List (LogValue K O)} : Redacted v v' →
    RedactedItems vs vs' → RedactedItems (v :: vs) (v' :: vs')

inductive RedactedEntries : List (K × LogValue K O) → List (K × LogValue K O) → Prop where
  | nil : RedactedEntries [] []
  | cons (key : K) {v v' : LogValue K O} {es es' : List (K × LogValue K O)} : Redacted v v' →
    RedactedEntries es es' → RedactedEntries ((key, v) :: es) ((key, v') :: es')

end

end Redacted

/-! ## Strings -/

/-- A secret the processor can hide. -/
structure Hideable (s : Text) : Prop where
  long : minRedactableSecretLength ≤ s.length
  star : '*' ∉ s

/-- The placeholder without its first and last mark. -/
def placeholderInside : Text := "**REDACTED**".toList

theorem redactionPlaceholder_eq :
    redactionPlaceholder = '*' :: (placeholderInside ++ ['*']) := by decide

namespace Hideable

variable {s : Text}

theorem ne_nil (h : Hideable s) : s ≠ [] := by
  rintro rfl
  exact absurd h.long (by decide)

/-- What is in the placeholder is too short. -/
theorem not_infix (h : Hideable s) : ¬ s <:+: placeholderInside := by
  intro hin
  have heq : s = placeholderInside := hin.eq_of_length_le h.long
  exact h.star (by rw [heq]; decide)

end Hideable

section Strings

variable {secrets : Finset Text} {l : List Text} {t m : Text}

/-- The test before the replacement changes nothing. -/
theorem step_eq (out secret : Text) :
    (if secret <:+: out then replaceAll secret redactionPlaceholder out else out) =
      replaceAll secret redactionPlaceholder out := by
  split
  · rfl
  · rename_i hno
    exact (replaceAll_of_absent _ hno).symm

/-- The secrets one after the other. -/
def replaceEach (l : List Text) (m : Text) : Text :=
  l.foldl (fun out secret => replaceAll secret redactionPlaceholder out) m

theorem redactString_eq (l : List Text) (t : Text) : redactString l t =
    replaceEach (l.insertionSort fun a b => b.length ≤ a.length) t := by
  rw [redactString, replaceEach]
  simp only [step_eq]

/-- **In any order** the result is the text with disjoint secrets replaced. -/
theorem fences_replaceEach (hsecrets : ∀ s ∈ secrets, Hideable s) (hl : ∀ s ∈ l, s ∈ secrets)
    (h : Fences (· ∈ secrets) redactionPlaceholder t m) :
    Fences (· ∈ secrets) redactionPlaceholder t (replaceEach l m) := by
  induction l generalizing m with
  | nil => exact h
  | cons s l ih =>
    have hs := hl s List.mem_cons_self
    have hide := hsecrets s hs
    refine ih (fun s hs => hl s (List.mem_cons_of_mem _ hs)) ?_
    rw [redactionPlaceholder_eq] at h ⊢
    exact h.replaceAll hs hide.ne_nil hide.star hide.not_infix

/-- What is gone stays away. -/
theorem not_infix_of_gone {s : Text} (hs : Hideable s) (hl : ∀ s ∈ l, Hideable s)
    (h : ¬ s <:+: m) : ¬ s <:+: replaceEach l m := by
  induction l generalizing m with
  | nil => exact h
  | cons s' l ih =>
    refine ih (fun s hs => hl s (List.mem_cons_of_mem _ hs)) fun hin => h ?_
    rw [redactionPlaceholder_eq] at hin
    have hhides := hides_replaceAll (hl s' List.mem_cons_self).ne_nil hs.star hs.not_infix m [] []
    rw [List.nil_append, List.append_nil, List.nil_append, List.append_nil] at hhides
    exact hhides hin

/-- Every secret has its turn. -/
theorem not_infix_replaceEach (hl : ∀ s ∈ l, Hideable s) {s : Text} (hs : s ∈ l) (m : Text) :
    ¬ s <:+: replaceEach l m := by
  induction l generalizing m with
  | nil => cases hs
  | cons s' l ih =>
    have hl' : ∀ s ∈ l, Hideable s := fun s hs => hl s (List.mem_cons_of_mem _ hs)
    rcases List.mem_cons.mp hs with rfl | hs
    · have hide := hl s List.mem_cons_self
      refine not_infix_of_gone (m := replaceAll s redactionPlaceholder m) hide hl' ?_
      rw [redactionPlaceholder_eq]
      exact not_infix_replaceAll hide.ne_nil hide.star hide.not_infix m
    · exact ih hl' hs _

theorem replaceEach_of_clean (h : ∀ s ∈ l, ¬ s <:+: t) : replaceEach l t = t := by
  induction l with
  | nil => rfl
  | cons s l ih =>
    rw [replaceEach, List.foldl_cons, replaceAll_of_absent _ (h s List.mem_cons_self)]
    exact ih fun s hs => h s (List.mem_cons_of_mem _ hs)

/-- **One string.** -/
theorem hidden_redactString (hsecrets : ∀ s ∈ secrets, Hideable s)
    (hl : ∀ s, s ∈ l ↔ s ∈ secrets) (t : Text) : Hidden secrets t (redactString l t) := by
  have hsort : ∀ s, s ∈ l.insertionSort (fun a b => b.length ≤ a.length) ↔ s ∈ secrets :=
    fun s => (List.mem_insertionSort _).trans (hl s)
  rw [redactString_eq]
  refine ⟨fun s hs => ?_, ?_, fun hclean => ?_⟩
  · exact not_infix_replaceEach (fun s hs => hsecrets s ((hsort s).mp hs)) ((hsort s).mpr hs) t
  · exact fences_replaceEach hsecrets (fun s hs => (hsort s).mp hs) (Fences.refl _ _ t)
  · exact replaceEach_of_clean fun s hs => hclean s ((hsort s).mp hs)

end Strings

/-! ## Values -/

section Values

variable {K O : Type} {secrets : Finset Text} {l : List Text}

theorem redacted_bytes (h : ∀ t, Hidden secrets t (redactString l t)) (b : Bytes) :
    Redacted (K := K) (O := O) secrets (.bytes b) (.bytes (redactBytes l b)) := by
  rw [redactBytes]
  split
  · rename_i hnone
    exact .raw hnone
  · rename_i t ht
    split
    · rename_i heq
      have hid := h t
      rw [heq] at hid
      exact .bytes ht ht hid fun _ => rfl
    · rename_i hne
      exact .bytes ht (Utf8.decode_encode _) (h t) fun heq => absurd heq hne

mutual

/-- **Every value**, by its structure. -/
theorem redacted_redactValue (h : ∀ t, Hidden secrets t (redactString l t)) :
    ∀ v : LogValue K O, Redacted secrets v (redactValue l v)
  | .str t => .str (h t)
  | .bytes b => redacted_bytes h b
  | .dict items => .dict (redacted_redactEntries h items)
  | .list items => .list (redacted_redactItems h items)
  | .tuple items => .tuple (redacted_redactItems h items)
  | .other value => .other value

theorem redacted_redactItems (h : ∀ t, Hidden secrets t (redactString l t)) :
    ∀ items : List (LogValue K O), RedactedItems secrets items (redactItems l items)
  | [] => .nil
  | value :: items => .cons (redacted_redactValue h value) (redacted_redactItems h items)

theorem redacted_redactEntries (h : ∀ t, Hidden secrets t (redactString l t)) :
    ∀ entries : List (K × LogValue K O), RedactedEntries secrets entries (redactEntries l entries)
  | [] => .nil
  | (key, value) :: entries =>
    .cons key (redacted_redactValue h value) (redacted_redactEntries h entries)

end

mutual

/-- Without secrets nothing is done. -/
theorem redactValue_nil : ∀ v : LogValue K O, redactValue [] v = v
  | .str _ => rfl
  | .bytes b => by
    rw [redactValue, redactBytes]
    split
    · rfl
    · exact congrArg LogValue.bytes (if_pos rfl)
  | .dict items => congrArg LogValue.dict (redactEntries_nil items)
  | .list items => congrArg LogValue.list (redactItems_nil items)
  | .tuple items => congrArg LogValue.tuple (redactItems_nil items)
  | .other _ => rfl

theorem redactItems_nil : ∀ items : List (LogValue K O), redactItems [] items = items
  | [] => rfl
  | value :: items => congrArg₂ List.cons (redactValue_nil value) (redactItems_nil items)

theorem redactEntries_nil :
    ∀ entries : List (K × LogValue K O), redactEntries [] entries = entries
  | [] => rfl
  | (key, value) :: entries =>
    congrArg₂ List.cons (congrArg (Prod.mk key) (redactValue_nil value)) (redactEntries_nil entries)

end

/-- **Log redaction is complete and precise**, for every order in which the secrets of the
registry are iterated. -/
theorem log_redaction (registry : CredentialRegistry)
    (hstar : ∀ s ∈ registry.snapshot, '*' ∉ s) (order : List Text)
    (horder : ∀ s, s ∈ order ↔ s ∈ registry.snapshot) (event : List (K × LogValue K O)) :
    RedactedEntries registry.snapshot event (processor order event) := by
  have hhide : ∀ s ∈ registry.snapshot, Hideable s := fun s hs => ⟨registry.long s hs, hstar s hs⟩
  have hid := hidden_redactString hhide horder
  have hwalk := redacted_redactEntries (K := K) (O := O) hid event
  rw [processor]
  split
  · rename_i hnil
    rw [hnil, redactEntries_nil] at hwalk
    exact hwalk
  · exact hwalk

/-- Three secrets: the second is in the first, the third overlaps the end of both. -/
def entangled : List Text :=
  ["456789abcdef".toList, "0123456789abcdef".toList, "cdef01234567".toList]

theorem log_redaction_sample :
    RedactedEntries (K := ℕ) (O := ℕ) entangled.toFinset
      [(0, .list [.bytes (ascii "k=0123456789abcdef01234567"),
        .dict [(1, .str "456789abcdef and cdef01234567, not 456789abcde".toList)]])]
      [(0, .list [.bytes (ascii "k=***REDACTED***01234567"),
        .dict [(1, .str "***REDACTED*** and ***REDACTED***, not 456789abcde".toList)]])] :=
  log_redaction ⟨entangled.toFinset, by decide⟩ (by decide) entangled
    (fun _ => List.mem_toFinset.symm) _

end Values

end LogRedaction

end RestreamPlus
