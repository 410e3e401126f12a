import Mathlib.Data.List.Basic
import Mathlib.Data.List.TakeDrop

/-! # Glob patterns

`glob_match` follows all the ways a pattern can match at once: a row tells of every start of
the text whether the tokens so far match it, and each token makes the next row of it.
-/
namespace ModelProxy.Glob
open List

/-- A part of a glob. -/
inductive Token
  | lit (c : Char)
  | any
  | star
  | doubleStar
  | doubleStarSlash
  | class (negate : Bool) (items : List (Char × Char))
deriving DecidableEq, Repr

/-! ## Tokens -/

/-- The loop of `parse_class`: the items, and how many characters they take with the bracket
that ends them. -/
def classItems (first : Bool) : List Char → Option (List (Char × Char) × ℕ)
  | [] => none
  | c :: '-' :: hi :: rest =>
    if c = ']' ∧ first = false then some ([], 1)
    else if hi = ']' then
      (classItems false ('-' :: hi :: rest)).map fun read => ((c, c) :: read.1, read.2 + 1)
    else (classItems false rest).map fun read => ((c, hi) :: read.1, read.2 + 3)
  | c :: rest =>
    if c = ']' ∧ first = false then some ([], 1)
    else (classItems false rest).map fun read => ((c, c) :: read.1, read.2 + 1)

/-- `parse_class`, behind the opening bracket. -/
def parseClass (pat : List Char) : Option (Token × ℕ) :=
  let negate := pat.head? == some '!' || pat.head? == some '^'
  let skipped := if negate then 1 else 0
  (classItems true (pat.drop skipped)).map fun read => (.class negate read.1, skipped + read.2)

/-- The token at a character, and how many characters behind it belong to it. -/
def tokenAt (c : Char) (rest : List Char) : Token × ℕ :=
  if c = '*' then
    if rest.head? = some '*' then
      if rest[1]? = some '/' then (.doubleStarSlash, 2) else (.doubleStar, 1)
    else (.star, 0)
  else if c = '?' then (.any, 0)
  else if c = '[' then (parseClass rest).getD (.lit '[', 0)
  else (.lit c, 0)

/-- The parts after `skip` characters that an earlier part took. -/
def tokensFrom : ℕ → List Char → List Token
  | _, [] => []
  | skip + 1, _ :: rest => tokensFrom skip rest
  | 0, c :: rest => (tokenAt c rest).1 :: tokensFrom (tokenAt c rest).2 rest

/-- The parts of a glob. -/
def tokenize (pat : List Char) : List Token := tokensFrom 0 pat

/-! ## Rows -/

section
variable (text : List Char) (row : ℕ → Bool)

/-- One character. -/
def charRow (test : Char → Bool) : ℕ → Bool
  | 0 => false
  | i + 1 => row i && text[i]?.any test

/-- Any run of characters. -/
def runRow (test : Char → Bool) : ℕ → Bool
  | 0 => row 0
  | i + 1 => row (i + 1) || (runRow test i && text[i]?.any test)

/-- The character is in the class. -/
def inClass (negate : Bool) (items : List (Char × Char)) (c : Char) : Bool :=
  items.any (fun item => decide (item.1 ≤ c) && decide (c ≤ item.2)) != negate

/-- The row behind a token. -/
def nextRow : Token → ℕ → Bool
  | .lit c => charRow text row (· == c)
  | .any => charRow text row (· != '/')
  | .class negate items => charRow text row fun c => c != '/' && inClass negate items c
  | .star => runRow text row (· != '/')
  | .doubleStar => runRow text row fun _ => true
  | .doubleStarSlash => fun i =>
    runRow text row (fun _ => true) i && (i == 0 || text[i - 1]? == some '/' || row i)

end

/-- `glob_match`. -/
def globMatch (pat text : List Char) : Bool :=
  (tokenize pat).foldl (nextRow text) (· == 0) text.length

/-! ## What a pattern matches -/

/-- The pieces of a text that a token stands for. -/
def Token.Matches : Token → List Char → Prop
  | .lit c, piece => piece = [c]
  | .any, piece => ∃ c, piece = [c] ∧ c ≠ '/'
  | .class negate items, piece => ∃ c, piece = [c] ∧ c ≠ '/' ∧
      ((∃ item ∈ items, item.1 ≤ c ∧ c ≤ item.2) ↔ negate = false)
  | .star, piece => '/' ∉ piece
  | .doubleStar, _ => True
  | .doubleStarSlash, piece => piece = [] ∨ piece.getLast? = some '/'

/-- The text splits into pieces that the tokens match one by one. -/
def Splits : List Token → List Char → Prop
  | [], text => text = []
  | token :: tokens, text =>
    ∃ piece rest, text = piece ++ rest ∧ token.Matches piece ∧ Splits tokens rest

/-- The items of a class as they are written: a range is its ends with a dash between them. -/
inductive Items : List Char → List (Char × Char) → Prop
  | nil : Items [] []
  | range {lo hi : Char} {rest : List Char} {items : List (Char × Char)} (h : Items rest items) :
      Items (lo :: '-' :: hi :: rest) ((lo, hi) :: items)
  | single {c : Char} {rest : List Char} {items : List (Char × Char)}
      (hdash : ∀ hi more, rest ≠ '-' :: hi :: more) (h : Items rest items) :
      Items (c :: rest) ((c, c) :: items)

/-- A class behind its opening bracket: a mark if it is negated, then its items to the first
closing bracket that is not the first of them. -/
inductive ClassText : Bool → List (Char × Char) → List Char → Prop
  | plain {c : Char} {body : List Char} {items : List (Char × Char)} (hmark : c ≠ '!' ∧ c ≠ '^')
      (hbody : ']' ∉ body) (h : Items (c :: body) items) :
      ClassText false items (c :: body ++ [']'])
  | negated {mark c : Char} {body : List Char} {items : List (Char × Char)}
      (hmark : mark = '!' ∨ mark = '^') (hbody : ']' ∉ body) (h : Items (c :: body) items) :
      ClassText true items (mark :: c :: body ++ [']'])

/-- The tokens a pattern is written with, the longest first.  A bracket that no class follows
stands for itself. -/
inductive Reads : List Char → List Token → Prop
  | nil : Reads [] []
  | doubleStarSlash {rest : List Char} {tokens : List Token} (h : Reads rest tokens) :
      Reads ('*' :: '*' :: '/' :: rest) (.doubleStarSlash :: tokens)
  | doubleStar {rest : List Char} {tokens : List Token} (hslash : rest.head? ≠ some '/')
      (h : Reads rest tokens) : Reads ('*' :: '*' :: rest) (.doubleStar :: tokens)
  | star {rest : List Char} {tokens : List Token} (hstar : rest.head? ≠ some '*')
      (h : Reads rest tokens) : Reads ('*' :: rest) (.star :: tokens)
  | any {rest : List Char} {tokens : List Token} (h : Reads rest tokens) :
      Reads ('?' :: rest) (.any :: tokens)
  | «class» {negate : Bool} {items : List (Char × Char)} {text rest : List Char}
      {tokens : List Token} (htext : ClassText negate items text) (h : Reads rest tokens) :
      Reads ('[' :: (text ++ rest)) (.class negate items :: tokens)
  | bracket {rest : List Char} {tokens : List Token}
      (hopen : ∀ negate items text, ClassText negate items text → ¬ text <+: rest)
      (h : Reads rest tokens) : Reads ('[' :: rest) (.lit '[' :: tokens)
  | lit {c : Char} {rest : List Char} {tokens : List Token} (hc : c ∉ ['*', '?', '['])
      (h : Reads rest tokens) : Reads (c :: rest) (.lit c :: tokens)

/-! ## The tokens of a pattern -/

section Reading
variable {first negate : Bool} {c hi : Char} {rest body pat : List Char}
  {items : List (Char × Char)} {tokens : List Token} {n : ℕ}

theorem classItems_close (rest : List Char) : classItems false (']' :: rest) = some ([], 1) := by
  unfold classItems
  split
  next he => cases he
  next he =>
    cases he
    exact if_pos ⟨rfl, rfl⟩
  next he =>
    cases he
    exact if_pos ⟨rfl, rfl⟩

theorem classItems_range (hc : ¬ (c = ']' ∧ first = false)) (hhi : hi ≠ ']') (rest : List Char) :
    classItems first (c :: '-' :: hi :: rest) =
      (classItems false rest).map fun read => ((c, hi) :: read.1, read.2 + 3) := by
  rw [classItems, if_neg hc, if_neg hhi]

theorem classItems_single (hc : ¬ (c = ']' ∧ first = false))
    (hdash : ∀ hi more, rest = '-' :: hi :: more → hi = ']') :
    classItems first (c :: rest) =
      (classItems false rest).map fun read => ((c, c) :: read.1, read.2 + 1) := by
  match rest with
  | '-' :: hi :: more => rw [classItems, if_neg hc, if_pos (hdash hi more rfl)]
  | [] => simp [classItems, hc]
  | [d] => simp [classItems, hc]
  | d :: e :: more =>
    by_cases hd : d = '-'
    · subst hd
      rw [classItems, if_neg hc, if_pos (hdash e more rfl)]
    · rw [classItems, if_neg hc]
      simp [hd]

/-- The items of a class, which the first closing bracket ends; the first item may be one. -/
def Body : Bool → List Char → Prop
  | true, body => body ≠ [] ∧ ']' ∉ body.tail
  | false, body => ']' ∉ body

theorem body_cons : Body first (c :: body) ↔ ¬ (c = ']' ∧ first = false) ∧ ']' ∉ body := by
  cases first <;> simp [Body, eq_comm]

/-- Items are read to the closing bracket. -/
theorem classItems_of_items (h : Items body items) (hb : Body first body) (rest : List Char) :
    classItems first (body ++ ']' :: rest) = some (items, body.length + 1) := by
  induction h generalizing first with
  | nil =>
    cases first with
    | true => exact absurd rfl hb.1
    | false => exact classItems_close rest
  | range h ih =>
    obtain ⟨hc, hb⟩ := body_cons.mp hb
    simp only [mem_cons, not_or] at hb
    obtain ⟨-, hhi, hb⟩ := hb
    simp only [cons_append]
    rw [classItems_range hc (Ne.symm hhi), ih (show Body false _ from hb)]
    rfl
  | @single c body items hdash h ih =>
    obtain ⟨hc, hb⟩ := body_cons.mp hb
    rw [cons_append, classItems_single hc, ih (show Body false body from hb)]
    · rfl
    · intro hi more he
      match body, hdash with
      | [], _ => cases he
      | [d], _ => exact (cons.inj (cons.inj he).2).1.symm
      | d :: e :: body, hdash =>
        obtain ⟨rfl, he⟩ := cons.inj he
        exact absurd rfl (hdash e body)

/-- What is read as items is written as such. -/
theorem classItems_some {read : List (Char × Char) × ℕ} (h : classItems first pat = some read) :
    ∃ body rest, pat = body ++ ']' :: rest ∧ read.2 = body.length + 1 ∧ Items body read.1 ∧
      Body first body := by
  fun_induction classItems first pat generalizing read with
  | case1 => cases h
  | case2 first c hi more hc | case5 first c more hno hc =>
    cases h
    obtain ⟨rfl, rfl⟩ := hc
    exact ⟨[], _, rfl, rfl, .nil, not_mem_nil⟩
  | case3 first c more hc ih =>
    obtain ⟨read, hr, rfl⟩ := Option.map_eq_some_iff.mp h
    obtain ⟨body, rest, he, hn, hit, hb⟩ := ih hr
    refine ⟨c :: body, rest, by rw [he]; rfl, by rw [hn]; rfl, .single ?_ hit,
      body_cons.mpr ⟨hc, hb⟩⟩
    rintro hi tail rfl
    cases he
    exact hb (by simp)
  | case4 first c hi more hc hhi ih =>
    obtain ⟨read, hr, rfl⟩ := Option.map_eq_some_iff.mp h
    obtain ⟨body, rest, rfl, hn, hit, hb⟩ := ih hr
    have hb : ']' ∉ body := hb
    exact ⟨c :: '-' :: hi :: body, rest, rfl, by rw [hn]; rfl, .range hit,
      body_cons.mpr ⟨hc, by simp [hb, Ne.symm hhi]⟩⟩
  | case6 first c more hno hc ih =>
    obtain ⟨read, hr, rfl⟩ := Option.map_eq_some_iff.mp h
    obtain ⟨body, rest, rfl, hn, hit, hb⟩ := ih hr
    exact ⟨c :: body, rest, rfl, by rw [hn]; rfl,
      .single (fun hi tail he => hno hi (tail ++ ']' :: rest) (by rw [he]; rfl)) hit,
      body_cons.mpr ⟨hc, hb⟩⟩

theorem parseClass_cons (mark : Char) (rest : List Char) : parseClass (mark :: rest) =
    if mark = '!' ∨ mark = '^' then
      (classItems true rest).map fun read => (.class true read.1, read.2 + 1)
    else (classItems true (mark :: rest)).map fun read => (.class false read.1, read.2) := by
  by_cases hm : mark = '!' ∨ mark = '^'
  · rw [if_pos hm]
    rcases hm with rfl | rfl <;> simp [parseClass, Nat.add_comm]
  · rw [if_neg hm]
    have hf : (mark == '!' || mark == '^') = false := by simpa using hm
    simp [parseClass, hf]

/-- A class is read as it is written. -/
theorem parseClass_of_text (h : ClassText negate items body) (rest : List Char) :
    parseClass (body ++ rest) = some (.class negate items, body.length) := by
  cases h with
  | @plain c body _ hm hb h =>
    have hr := classItems_of_items h (body_cons.mpr ⟨by simp, hb⟩ : Body true _) rest
    simp only [cons_append, append_assoc, nil_append, parseClass_cons] at hr ⊢
    rw [if_neg (not_or.mpr hm), hr]
    simp
  | @negated mark c body _ hm hb h =>
    have hr := classItems_of_items h (body_cons.mpr ⟨by simp, hb⟩ : Body true _) rest
    simp only [cons_append, append_assoc, nil_append, parseClass_cons] at hr ⊢
    rw [if_pos hm, hr]
    simp

/-- What reads as a class is written as one. -/
theorem exists_classText {read : Token × ℕ} (h : parseClass pat = some read) :
    ∃ negate items body rest, ClassText negate items body ∧ pat = body ++ rest ∧
      read = (.class negate items, body.length) := by
  cases pat with
  | nil => cases h
  | cons mark pat =>
    rw [parseClass_cons] at h
    split at h
    next hm =>
      obtain ⟨⟨items, n⟩, hr, rfl⟩ := Option.map_eq_some_iff.mp h
      obtain ⟨body, rest, rfl, rfl, hit, hne, hb⟩ := classItems_some hr
      obtain ⟨c, body, rfl⟩ := exists_cons_of_ne_nil hne
      exact ⟨true, items, mark :: c :: body ++ [']'], rest, .negated hm hb hit, by simp, by simp⟩
    next hm =>
      obtain ⟨⟨items, n⟩, hr, rfl⟩ := Option.map_eq_some_iff.mp h
      obtain ⟨body, rest, he, rfl, hit, hne, hb⟩ := classItems_some hr
      obtain ⟨c, body, rfl⟩ := exists_cons_of_ne_nil hne
      cases he
      exact ⟨false, items, mark :: body ++ [']'], rest, .plain (not_or.mp hm) hb hit, by simp,
        by simp⟩

/-- The characters of a token are passed. -/
theorem tokensFrom_append (text rest : List Char) :
    tokensFrom text.length (text ++ rest) = tokenize rest := by
  induction text with
  | nil => rfl
  | cons c text ih => exact ih

/-- The parts of a glob are those its grammar gives. -/
theorem Reads.tokenize_eq (h : Reads pat tokens) : tokenize pat = tokens := by
  induction h with
  | nil => rfl
  | doubleStarSlash h ih =>
    rw [← ih]
    rfl
  | doubleStar hs h ih =>
    rw [← ih]
    simp [tokenize, tokensFrom, tokenAt, ← head?_eq_getElem?, hs]
  | star hs h ih =>
    rw [← ih]
    simp [tokenize, tokensFrom, tokenAt, hs]
  | any h ih =>
    rw [← ih]
    rfl
  | «class» ht h ih =>
    rw [← ih]
    simp [tokenize, tokensFrom, tokenAt, parseClass_of_text ht]
    exact tokensFrom_append _ _
  | @bracket rest _ ho h ih =>
    have hn : parseClass rest = none := by
      refine Option.eq_none_iff_forall_ne_some.mpr fun read hr => ?_
      obtain ⟨negate, items, body, more, ht, rfl, -⟩ := exists_classText hr
      exact ho negate items body ht (prefix_append body more)
    rw [← ih]
    simp [tokenize, tokensFrom, tokenAt, hn]
  | lit hc h ih =>
    rw [← ih]
    simp only [mem_cons, not_mem_nil, or_false, not_or] at hc
    simp [tokenize, tokensFrom, tokenAt, hc]

/-- The token at a character is one the pattern is written with there. -/
theorem tokenAt_reads (c : Char) (rest : List Char) :
    ∃ text more, rest = text ++ more ∧ (tokenAt c rest).2 = text.length ∧
      ∀ tokens, Reads more tokens → Reads (c :: rest) ((tokenAt c rest).1 :: tokens) := by
  unfold tokenAt
  split_ifs with hs htwo hslash hq hb
  · subst hs
    obtain ⟨more, rfl⟩ := head?_eq_some_iff.mp htwo
    rw [getElem?_cons_succ, ← head?_eq_getElem?] at hslash
    obtain ⟨more, rfl⟩ := head?_eq_some_iff.mp hslash
    exact ⟨['*', '/'], more, rfl, rfl, fun _ => .doubleStarSlash⟩
  · subst hs
    obtain ⟨more, rfl⟩ := head?_eq_some_iff.mp htwo
    rw [getElem?_cons_succ, ← head?_eq_getElem?] at hslash
    exact ⟨['*'], more, rfl, rfl, fun _ => .doubleStar hslash⟩
  · subst hs
    exact ⟨[], rest, rfl, rfl, fun _ => .star htwo⟩
  · subst hq
    exact ⟨[], rest, rfl, rfl, fun _ => .any⟩
  · subst hb
    cases hc : parseClass rest with
    | none =>
      refine ⟨[], rest, rfl, rfl, fun _ => .bracket ?_⟩
      rintro negate items text ht ⟨more, rfl⟩
      rw [parseClass_of_text ht] at hc
      cases hc
    | some read =>
      obtain ⟨negate, items, text, more, ht, rfl, rfl⟩ := exists_classText hc
      exact ⟨text, more, rfl, rfl, fun _ => .class ht⟩
  · exact ⟨[], rest, rfl, rfl, fun _ => .lit (by simp [hs, hq, hb])⟩

/-- **Every pattern is written with the tokens it is read as.** -/
theorem reads_tokenize (pat : List Char) : Reads pat (tokenize pat) := by
  -- the rest behind a token is shorter
  suffices h : ∀ n, ∀ pat : List Char, pat.length ≤ n → Reads pat (tokenize pat) from
    h pat.length pat (Nat.le_refl _)
  intro n
  induction n with
  | zero =>
    intro pat hl
    rw [length_eq_zero_iff.mp (Nat.le_zero.mp hl)]
    exact .nil
  | succ n ih =>
    intro pat hl
    cases pat with
    | nil => exact .nil
    | cons c rest =>
      obtain ⟨text, more, rfl, hn, ht⟩ := tokenAt_reads c rest
      rw [tokenize, tokensFrom, hn, tokensFrom_append]
      refine ht _ (ih more ?_)
      rw [length_cons, length_append] at hl
      omega

end Reading

section Rows
variable {text : List Char} {row : ℕ → Bool} {test : Char → Bool} {j k : ℕ}

theorem drop_take_succ {c : Char} (hj : j ≤ k) (hk : text[k]? = some c) :
    (text.take (k + 1)).drop j = (text.take k).drop j ++ [c] := by
  have hlt := (List.getElem?_eq_some_iff.mp hk).1
  rw [take_add_one, hk, drop_append_of_le_length (by rw [length_take]; omega)]
  rfl

theorem drop_take_self (text : List Char) (k : ℕ) : (text.take k).drop k = [] :=
  drop_eq_nil_of_le (length_take_le k text)

theorem charRow_iff (hk : k ≤ text.length) : charRow text row test k = true ↔
    ∃ j ≤ k, row j = true ∧ ∃ c, (text.take k).drop j = [c] ∧ test c = true := by
  cases k with
  | zero => simp [charRow]
  | succ k =>
    obtain ⟨c, hc⟩ : ∃ c, text[k]? = some c := ⟨text[k], getElem?_eq_getElem hk⟩
    rw [charRow, hc, Option.any_some, Bool.and_eq_true]
    constructor
    · rintro ⟨hr, ht⟩
      refine ⟨k, k.le_succ, hr, c, ?_, ht⟩
      rw [drop_take_succ (Nat.le_refl k) hc, drop_take_self, nil_append]
    · rintro ⟨j, hj, hr, d, hp, ht⟩
      have hl := congrArg length hp
      rw [length_drop, length_take, length_singleton] at hl
      obtain rfl : j = k := by omega
      rw [drop_take_succ (Nat.le_refl j) hc, drop_take_self] at hp
      cases hp
      exact ⟨hr, ht⟩

theorem runRow_iff (hk : k ≤ text.length) : runRow text row test k = true ↔
    ∃ j ≤ k, row j = true ∧ ∀ c ∈ (text.take k).drop j, test c = true := by
  induction k with
  | zero => simp [runRow]
  | succ k ih =>
    obtain ⟨c, hc⟩ : ∃ c, text[k]? = some c := ⟨text[k], getElem?_eq_getElem hk⟩
    rw [runRow, hc, Option.any_some, Bool.or_eq_true, Bool.and_eq_true, ih (by omega)]
    constructor
    · rintro (hr | ⟨⟨j, hj, hr, hp⟩, ht⟩)
      · exact ⟨k + 1, Nat.le_refl _, hr, by simp⟩
      · refine ⟨j, by omega, hr, ?_⟩
        rw [drop_take_succ hj hc, forall_mem_append]
        exact ⟨hp, forall_mem_singleton.mpr ht⟩
    · rintro ⟨j, hj, hr, hp⟩
      rcases Nat.le_succ_iff.mp hj with hj | rfl
      · rw [drop_take_succ hj hc, forall_mem_append] at hp
        exact .inr ⟨⟨j, hj, hr, hp.1⟩, hp.2 c (mem_singleton_self c)⟩
      · exact .inl hr

theorem inClass_iff {negate : Bool} {items : List (Char × Char)} {c : Char} :
    inClass negate items c = true ↔
      ((∃ item ∈ items, item.1 ≤ c ∧ c ≤ item.2) ↔ negate = false) := by
  have ha : items.any (fun item => decide (item.1 ≤ c) && decide (c ≤ item.2)) = true ↔
      ∃ item ∈ items, item.1 ≤ c ∧ c ≤ item.2 := by simp
  rw [inClass, bne_iff_ne, ← ha]
  cases negate <;> simp

/-- **One row**: a start of the text is reached if its last piece matches the token. -/
theorem nextRow_iff (tok : Token) (hk : k ≤ text.length) : nextRow text row tok k = true ↔
    ∃ j ≤ k, row j = true ∧ tok.Matches ((text.take k).drop j) := by
  cases tok with
  | lit c => simp [nextRow, charRow_iff hk, Token.Matches]
  | any => simp [nextRow, charRow_iff hk, Token.Matches]
  | «class» negate xs =>
    simp only [nextRow, charRow_iff hk, Token.Matches, Bool.and_eq_true, bne_iff_ne, inClass_iff]
  | star =>
    simp only [nextRow, runRow_iff hk, Token.Matches, bne_iff_ne]
    grind
  | doubleStar => simp [nextRow, runRow_iff hk, Token.Matches]
  | doubleStarSlash =>
    simp only [nextRow, Token.Matches, Bool.and_eq_true, runRow_iff hk, implies_true, and_true]
    cases k with
    | zero => simp
    | succ k =>
      obtain ⟨c, hc⟩ : ∃ c, text[k]? = some c := ⟨text[k], getElem?_eq_getElem hk⟩
      have hs := drop_take_self text (k + 1)
      simp only [Nat.add_sub_cancel, hc, Nat.add_eq_zero_iff, Nat.one_ne_zero, and_false,
        Bool.or_eq_true, beq_iff_eq, Option.some.injEq, false_or]
      constructor
      · rintro ⟨⟨j, hj, hr⟩, rfl | hla⟩
        · rcases Nat.le_succ_iff.mp hj with hle | rfl
          · exact ⟨j, hj, hr, .inr (by rw [drop_take_succ hle hc, getLast?_concat])⟩
          · exact ⟨_, hj, hr, .inl hs⟩
        · exact ⟨_, Nat.le_refl _, hla, .inl hs⟩
      · rintro ⟨j, hj, hr, hp⟩
        refine ⟨⟨j, hj, hr⟩, ?_⟩
        rcases Nat.le_succ_iff.mp hj with hle | rfl
        · rw [drop_take_succ hle hc] at hp
          exact .inl (by simpa using hp)
        · exact .inr hr

/-- The rows say which suffixes the parts split. -/
theorem foldl_nextRow (tokens : List Token) (row : ℕ → Bool) :
    tokens.foldl (nextRow text) row text.length = true ↔
      ∃ j ≤ text.length, row j = true ∧ Splits tokens (text.drop j) := by
  induction tokens generalizing row with
  | nil =>
    rw [foldl_nil]
    constructor
    · exact fun hr => ⟨_, Nat.le_refl _, hr, drop_length⟩
    · rintro ⟨j, hj, hr, hn⟩
      obtain rfl : j = text.length := Nat.le_antisymm hj (drop_eq_nil_iff.mp hn)
      exact hr
  | cons tok tokens ih =>
    rw [foldl_cons, ih]
    constructor
    · rintro ⟨k, hk, hnx, hre⟩
      obtain ⟨j, hj, hr, hp⟩ := (nextRow_iff tok hk).mp hnx
      refine ⟨j, Nat.le_trans hj hk, hr, _, _, ?_, hp, hre⟩
      rw [← drop_append_of_le_length (by rw [length_take]; omega), take_append_drop]
    · rintro ⟨j, hj, hr, piece, rest, hsp, hp, hre⟩
      have hl := congrArg length hsp
      rw [length_drop, length_append] at hl
      refine ⟨j + piece.length, by omega,
        (nextRow_iff tok (by omega)).mpr ⟨j, by omega, hr, ?_⟩, ?_⟩
      · rw [drop_take, hsp, Nat.add_sub_cancel_left, take_left]
        exact hp
      · rw [← drop_drop, hsp, drop_left]
        exact hre

/-- **The matcher is exact**: a pattern is written with one list of tokens, and it matches the
texts that split into pieces of them. -/
theorem globMatch_iff (pat text : List Char) : ∃ tokens,
    (∀ other, Reads pat other ↔ other = tokens) ∧
      (globMatch pat text = true ↔ Splits tokens text) := by
  refine ⟨tokenize pat, fun other => ⟨fun h => h.tokenize_eq.symm, ?_⟩, ?_⟩
  · rintro rfl
    exact reads_tokenize pat
  · simp [globMatch, foldl_nextRow]

end Rows

end ModelProxy.Glob
