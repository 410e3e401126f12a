import Mathlib.Data.List.Infix

/-! # Patterns searched leftmost first

Regular expressions whose repetitions are over single characters, with the search of a
backtracking engine: the leftmost place where the pattern matches, and there the match that
the order of the alternatives and the greed of the repetitions prefer.
-/
namespace ModelProxy
open List

/-- A place in a text: whether it is the beginning, and what is left from here. -/
structure Place where
  begins : Bool
  rest : List Char
deriving DecidableEq, Repr

/-- A regular expression. -/
inductive Pattern
  | empty
  /-- One character. -/
  | one (p : Char → Bool)
  /-- One pattern after the other. -/
  | then_ (first second : Pattern)
  /-- The first pattern, or else the second. -/
  | or_ (first second : Pattern)
  /-- Any number of characters, as many as possible. -/
  | many (p : Char → Bool)
  /-- Any number of characters, as few as possible. -/
  | few (p : Char → Bool)
  /-- The beginning of the text. -/
  | start
  /-- The end of the text. -/
  | stop

namespace Pattern

/-- The places within a run of characters, nearest first. -/
def places (p : Char → Bool) : Bool → List Char → List Place
  | begins, [] => [⟨begins, []⟩]
  | begins, c :: rest => ⟨begins, c :: rest⟩ :: if p c then places p false rest else []

/-- Where a match that starts here can end, the preferred place first. -/
def ends : Pattern → Place → List Place
  | empty, here => [here]
  | one p, here =>
    match here.rest with
    | [] => []
    | c :: rest => if p c then [⟨false, rest⟩] else []
  | then_ first second, here => (ends first here).flatMap (ends second)
  | or_ first second, here => ends first here ++ ends second here
  | many p, here => (places p here.begins here.rest).reverse
  | few p, here => places p here.begins here.rest
  | start, here => if here.begins then [here] else []
  | stop, here => if here.rest = [] then [here] else []

/-- What is left after the leftmost match at or after a place. -/
def search (pattern : Pattern) : Bool → List Char → Option (List Char)
  | begins, [] => ((pattern.ends ⟨begins, []⟩).head?).map Place.rest
  | begins, c :: rest =>
    match (pattern.ends ⟨begins, c :: rest⟩).head? with
    | some place => some place.rest
    | none => search pattern false rest

/-- The pattern occurs in the text. -/
def isMatch (pattern : Pattern) (text : List Char) : Bool := (pattern.search true text).isSome

/-! ## Patterns built from others -/

/-- The patterns one after the other. -/
def sequence (patterns : List Pattern) : Pattern := patterns.foldr then_ empty

/-- The text itself. -/
def literal (text : List Char) : Pattern := sequence (text.map fun c => one (· == c))

/-- The pattern if it matches, and nothing otherwise. -/
def perhaps (pattern : Pattern) : Pattern := or_ pattern empty

/-- At least one character. -/
def some_ (p : Char → Bool) : Pattern := then_ (one p) (many p)

/-- The first of these that matches. -/
def anyOf : List Pattern → Pattern
  | [] => one fun _ => false
  | [pattern] => pattern
  | pattern :: patterns => or_ pattern (anyOf patterns)

/-! ## What a match leaves is the end of the text -/

theorem places_suffix {p : Char → Bool} {begins : Bool} {text : List Char} {place : Place}
    (h : place ∈ places p begins text) : place.rest <:+ text := by
  induction text generalizing begins with
  | nil =>
    obtain rfl := mem_singleton.mp h
    exact suffix_refl _
  | cons c rest ih =>
    rcases mem_cons.mp h with rfl | h
    · exact suffix_refl _
    · split at h
      · exact (ih h).trans (suffix_cons c rest)
      · cases h

/-- A pattern ends further on in the text. -/
theorem ends_suffix (pattern : Pattern) : ∀ {here place : Place}, place ∈ pattern.ends here →
    place.rest <:+ here.rest := by
  induction pattern with
  | empty =>
    intro here place h
    obtain rfl := mem_singleton.mp h
    exact suffix_refl _
  | one p =>
    intro here place h
    unfold ends at h
    split at h
    · cases h
    next c rest hr =>
    split at h
    · obtain rfl := mem_singleton.mp h
      rw [hr]
      exact suffix_cons c rest
    · cases h
  | then_ first second ihfirst ihsecond =>
    intro here place h
    obtain ⟨between, hf, hs⟩ := mem_flatMap.mp h
    exact (ihsecond hs).trans (ihfirst hf)
  | or_ first second ihfirst ihsecond =>
    intro here place h
    rcases mem_append.mp h with h | h
    · exact ihfirst h
    · exact ihsecond h
  | many p =>
    intro here place h
    exact places_suffix (mem_reverse.mp h)
  | few p =>
    intro here place h
    exact places_suffix h
  | start | stop =>
    intro here place h
    unfold ends at h
    split at h
    · obtain rfl := mem_singleton.mp h
      exact suffix_refl _
    · cases h

/-- **A search leaves the end of the text it searched.** -/
theorem search_suffix {pattern : Pattern} {begins : Bool} {text rest : List Char}
    (h : pattern.search begins text = some rest) : rest <:+ text := by
  induction text generalizing begins with
  | nil =>
    obtain ⟨place, hp, rfl⟩ := Option.map_eq_some_iff.mp h
    exact ends_suffix pattern (mem_of_mem_head? hp)
  | cons c text ih =>
    unfold search at h
    split at h
    next place hp =>
      cases h
      exact ends_suffix pattern (mem_of_mem_head? hp)
    next hno => exact (ih h).trans (suffix_cons c text)

end Pattern

end ModelProxy
