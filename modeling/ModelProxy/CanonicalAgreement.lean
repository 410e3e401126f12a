import ModelProxy.CanonicalWriting
import ModelProxy.Utf8Order

/-! # The server and the node write the same canonical text

A value the server writes and the value the node's JSON parser has for it are related by
`Matches`: the same texts, numbers that are the same double, and the same members in
whatever order.  Both sides then refuse, or write one text.
-/
namespace ModelProxy.CanonicalJson
open Canonical ModelProxy.Finite List Comparator Utf8

open CommandOutput (literal textUnits textUnits_append textUnits_cons unitsOf isHighSurrogate
  isLowSurrogate)
open Canonical (Number Value)

/-! ## The order of keys -/

/-- **Code point order is byte order.** -/
theorem compareCodePoints_neg (a b : List Char) :
    compareCodePoints (textUnits a) (textUnits b) < 0 ↔ encode a < encode b := by
  rw [codePointOrder_units, encode_lt_iff]
  exact lex_neg (fun _ _ => Iff.rfl) Function.injective_id

theorem keyOrder_alike (a b : List Char) :
    codePointOrder.le (textUnits a) (textUnits b) ↔ byteOrder.le a b := by
  have hs := codePointOrder.swap (textUnits a) (textUnits b)
  have hne := byteOrder.swap a b
  have hn : codePointOrder.cmp (textUnits b) (textUnits a) < 0 ↔
      byteOrder.cmp b a < 0 := (compareCodePoints_neg b a).trans
    (lex_neg (fun _ _ => UInt8.lt_iff_toNat_lt) fun _ _ => UInt8.toNat_inj.mp).symm
  unfold le
  omega

/-! ## Outcomes -/

/-- Both refused, or both wrote one text. -/
inductive Agrees {ε ε' : Type} : Except ε (List ℕ) → Except ε' (List Char) → Prop
  | wrote (text : List Char) : Agrees (.ok (textUnits text)) (.ok text)
  | refused (e : ε) (e' : ε') : Agrees (.error e) (.error e')

section Agrees
variable {ε ε' : Type} {server : Except ε (List ℕ)} {node : Except ε' (List Char)}

/-- More text around what was written. -/
theorem Agrees.wrap (h : Agrees server node) (pre behind : List Char) :
    Agrees (server >>= fun text => pure (textUnits pre ++ text ++ textUnits behind))
      (node >>= fun text => pure (pre ++ text ++ behind)) := by
  cases h with
  | wrote text =>
    have hwr := @Agrees.wrote ε ε' (pre ++ text ++ behind)
    rwa [textUnits_append, textUnits_append] at hwr
  | refused e e' => exact .refused e e'

/-- Agreeing pieces agree with commas between them. -/
theorem Agrees.separated {pieces : List (Except ε (List ℕ))}
    {pieces' : List (Except ε' (List Char))}
    (h : List.Forall₂ Agrees pieces pieces') :
    Agrees (separated 0x2c pieces) (separated ',' pieces') := by
  induction h with
  | nil => exact .wrote []
  | @cons piece piece' pieces pieces' hpc hp ih =>
    cases hp with
    | nil => exact hpc
    | cons hnx hr =>
      simp only [ModelProxy.separated]
      cases hpc with
      | refused e e' => exact .refused e e'
      | wrote text =>
        generalize ModelProxy.separated 0x2c _ = server at ih
        generalize ModelProxy.separated ',' _ = node at ih
        cases ih with
        | refused e e' => exact .refused e e'
        | wrote rest =>
          have hw := @Agrees.wrote ε ε' (text ++ ',' :: rest)
          rw [textUnits_append, textUnits_cons] at hw
          exact hw

end Agrees

/-! ## Numbers -/

section
variable {shortest display : Finite → List Char}

/-- Both languages print a double in range that is no integer alike. -/
def PrintAlike (shortest display : Finite → List Char) : Prop :=
  ∀ x : Finite, x.isInteger = false → Finite.lowest ≤ x.magnitude →
    x.magnitude < Finite.highest → shortest x = display x

variable {n : ℕ}

theorem nearest_le_iff :
    ((nearest n : ℕ) : ℚ≥0) ≤ maxSafeInteger ↔ n ≤ maxSafeInteger := by
  rw [← NNRat.coe_le_coe, NNRat.coe_natCast, NNRat.coe_natCast, Nat.cast_le]
  unfold maxSafeInteger
  rcases lt_or_ge n (2 ^ 53) with hlt | hge
  · rw [nearest, if_pos hlt]
  · have := nearest_ge hge
    omega

/-- A machine integer, and the double the server has for it. -/
theorem ofInteger_agrees {negative : Bool} (h : n < 2 ^ 64) (hz : negative = true → n ≠ 0)
    (path : List ℕ) (refusal : List Char) :
    Agrees (canonicalNumber shortest (Number.ofInteger negative n h) path)
      (if maxSafeInteger < n then .error refusal else .ok (decimal negative n)) := by
  unfold Number.ofInteger
  rw [canonicalNumber_integer path (by simp [isInteger])]
  by_cases hsa : n ≤ maxSafeInteger
  · have he : nearest n = n := by
      unfold maxSafeInteger at hsa
      rw [nearest, if_pos (by omega)]
    have hsg : (negative && decide ((n : ℚ≥0) ≠ 0)) = negative := by
      cases negative with
      | false => rfl
      | true => simpa using hz rfl
    rw [if_pos (nearest_le_iff.mpr hsa), if_neg (not_lt.mpr hsa)]
    simp only [he, NNRat.num_natCast, hsg]
    exact .wrote _
  · rw [if_neg (mt nearest_le_iff.mp hsa), if_pos (Nat.lt_of_not_le hsa)]
    exact .refused _ _

theorem float_agrees (hpri : PrintAlike shortest display) (x : Finite) (path : List ℕ)
    (path' : List Char) :
    Agrees (canonicalNumber shortest (.finite x) path)
      (writeNumber display (.float x) path') := by
  simp only [writeNumber, Number.asU64, Number.asI64, Number.asF64]
  by_cases hint : x.isInteger = true
  · rw [canonicalNumber_integer path hint, if_pos hint]
    by_cases hsa : x.magnitude ≤ maxSafeInteger
    · rw [if_pos hsa, if_neg (not_lt.mpr hsa)]
      by_cases hz : x.magnitude = 0
      · rw [if_pos hz, hz]
        simp only [ne_eq, not_true_eq_false, decide_false, Bool.and_false]
        exact .wrote ['0']
      · simp only [hz, ne_eq, not_false_eq_true, decide_true, Bool.and_true, if_false]
        exact .wrote _
    · rw [if_neg hsa, if_pos (lt_of_not_ge hsa)]
      exact .refused _ _
  · rw [if_neg hint]
    rw [Bool.not_eq_true] at hint
    rw [canonicalNumber_fraction path hint]
    by_cases hran : lowest ≤ x.magnitude ∧ x.magnitude < highest
    · rw [if_pos hran, if_pos hran, hpri x hint hran.1 hran.2]
      exact .wrote _
    · rw [if_neg hran, if_neg hran]
      exact .refused _ _

/-- **One double on both sides: both refuse it, or both write the same digits.** -/
theorem number_agrees (hp : PrintAlike shortest display) {n : Number} {x : Double}
    (h : n.asF64 = some x) (path : List ℕ) (path' : List Char) :
    Agrees (canonicalNumber shortest x path) (writeNumber display n path') := by
  cases n with
  | posInt n =>
    cases h
    exact ofInteger_agrees _ (fun hn => absurd hn (by simp)) path _
  | negInt i =>
    cases h
    exact ofInteger_agrees _ (fun hn => by simp at hn; omega) path _
  | float x =>
    cases h
    exact float_agrees hp x path path'

end

/-! ## Values -/

mutual

/-- The server's value and the node's are one JSON value. -/
inductive Matches : JsValue → Value → Prop
  | null : Matches .null .null
  | bool (flag : Bool) : Matches (.bool flag) (.bool flag)
  | number {x : Double} {n : Number} : n.asF64 = some x → Matches (.number x) (.number n)
  | string (text : List Char) : Matches (.string (textUnits text)) (.string text)
  | array {items : List JsValue} {items' : List Value} : MatchesItems items items' →
      Matches (.array items) (.array items')
  /-- The members in any order, under distinct keys. -/
  | object {entries members : List (List ℕ × JsValue)} {map : List (List Char × Value)} :
      (present entries).Perm members → MatchesMembers members map →
      (map.map Prod.fst).Nodup → Matches (.object entries) (.object map)

/-- The items agree one by one. -/
inductive MatchesItems : List JsValue → List Value → Prop
  | nil : MatchesItems [] []
  | cons {item : JsValue} {items : List JsValue} {item' : Value} {items' : List Value} :
      Matches item item' → MatchesItems items items' →
      MatchesItems (item :: items) (item' :: items')

/-- The members agree one by one. -/
inductive MatchesMembers : List (List ℕ × JsValue) → List (List Char × Value) → Prop
  | nil : MatchesMembers [] []
  | cons {key : List Char} {member : JsValue} {member' : Value}
      {members : List (List ℕ × JsValue)} {map : List (List Char × Value)} :
      Matches member member' → MatchesMembers members map →
      MatchesMembers ((textUnits key, member) :: members) ((key, member') :: map)

end

section Values
variable {shortest display : Finite → List Char} {quote : List Char → List Char}

theorem Matches.defined {v : JsValue} {w : Value} (h : Matches v w) : v ≠ .undefined := by
  rintro rfl
  cases h

/-- Both languages quote a text alike. -/
def QuoteAlike (quote : List Char → List Char) : Prop :=
  ∀ text, stringify (textUnits text) = textUnits (quote text)

/-- Corresponding members: the same key, and outcomes that agree. -/
structure MembersAgree (server : List ℕ × Except CanonicalJsonError (List ℕ))
    (node : List Char × Except (List Char) (List Char)) : Prop where
  key : server.1 = textUnits node.1
  text : Agrees server.2 node.2

theorem writeMember_agrees (hq : QuoteAlike quote) (path : List ℕ)
    {server : List ℕ × Except CanonicalJsonError (List ℕ)}
    {node : List Char × Except (List Char) (List Char)} (h : MembersAgree server node) :
    Agrees (writeMember path server) (Canonical.writeMember quote node) := by
  obtain ⟨key, text⟩ := server
  obtain ⟨rfl, htx⟩ := h
  have hwr := htx.wrap (quote node.1 ++ [':']) []
  have hle := loneSurrogate_textUnits node.1
  rw [textUnits_append, ← hq node.1] at hwr
  simp only [writeMember, Canonical.writeMember, hle, Bool.false_eq_true, if_false]
  have hc : literal ":" = textUnits [':'] := rfl
  have hn : textUnits [] = [] := rfl
  simpa [hc, hn] using hwr

variable {mems : List (List ℕ × JsValue)} {map : List (List Char × Value)}

theorem present_members (h : MatchesMembers mems map) : present mems = mems := by
  induction mems generalizing map with
  | nil => rfl
  | cons e mems ih =>
    cases h with
    | cons hmb hr =>
      have hkp := ih hr
      unfold present at hkp ⊢
      cases hmb <;> simp [hkp]

theorem keys_members (h : MatchesMembers mems map) :
    mems.map Prod.fst = map.map fun e => textUnits e.1 := by
  induction mems generalizing map with
  | nil => cases h; rfl
  | cons e mems ih =>
    cases h with
    | cons _ hr => simp [ih hr]

/-- The node's keys are distinct, so the server's sort does not depend on the order in which
it enumerates the members. -/
theorem sort_members {es : List (List ℕ × JsValue)} (hpm : (present es).Perm mems)
    (hm : MatchesMembers mems map) (hky : (map.map Prod.fst).Nodup) (path : List ℕ) :
    (codePointOrder.comap Prod.fst).sort (writeEntries shortest es path) =
      (codePointOrder.comap Prod.fst).sort (writeEntries shortest mems path) := by
  rw [writeEntries_eq es, writeEntries_eq mems, present_members hm]
  have hky' : (mems.map Prod.fst).Nodup := by
    rw [keys_members hm, ← Function.comp_def textUnits, ← map_map]
    exact hky.map textUnits_injective
  have ht : ∀ e ∈ mems, ∃ key, e.1 = textUnits key := fun e he => by
    have hk : e.1 ∈ mems.map Prod.fst := mem_map_of_mem he
    rw [keys_members hm] at hk
    obtain ⟨node, -, hne⟩ := mem_map.mp hk
    exact ⟨node.1, hne.symm⟩
  refine sortKeys_perm (hpm.map _) ?_ ?_
  · rw [map_map]
    exact (hpm.map Prod.fst).nodup_iff.mpr hky'
  · intro e he
    obtain ⟨member, hmb, rfl⟩ := mem_map.mp he
    exact ht member (hpm.mem_iff.mp hmb)

mutual

/-- The two writers agree on values that match. -/
theorem write_agrees (hp : PrintAlike shortest display) (hq : QuoteAlike quote) :
    ∀ {v : JsValue} {w : Value}, Matches v w → ∀ (path : List ℕ) (path' : List Char),
      Agrees (write shortest v path) (Canonical.writeValue display quote w path')
  | _, _, .null, _, _ => .wrote _
  | _, _, .bool true, _, _ => .wrote "true".toList
  | _, _, .bool false, _, _ => .wrote "false".toList
  | _, _, .number h, path, path' => number_agrees hp h path path'
  | _, _, .string text, path, path' => by
    rw [write, Canonical.writeValue, loneSurrogate_textUnits, if_neg (by simp), hq]
    exact .wrote _
  | _, _, .array hi, path, path' => by
    exact (Agrees.separated (items_agree hp hq hi path path' 0)).wrap ['['] [']']
  | _, _, .object hpm hm hky, path, path' => by
    rw [write, Canonical.writeValue]
    have hs := forall₂_sort (codePointOrder.comap Prod.fst)
      (Canonical.byteOrder.comap Prod.fst) (fun a a' b b' h h' => by
        have ha := keyOrder_alike b.1 b'.1
        rw [← h.key, ← h'.key] at ha
        exact ha) (members_agree hp hq hm path path')
    rw [sort_members hpm hm hky]
    have hpi := forall₂_map_left_iff.mpr (forall₂_map_right_iff.mpr
      (hs.imp fun _ _ h => writeMember_agrees hq path h))
    exact (Agrees.separated hpi).wrap "\x7b".toList "\x7d".toList

theorem items_agree (hp : PrintAlike shortest display) (hq : QuoteAlike quote) :
    ∀ {xs : List JsValue} {xs' : List Value}, MatchesItems xs xs' →
      ∀ (path : List ℕ) (path' : List Char) (i : ℕ),
      List.Forall₂ Agrees (writeItems shortest xs path i)
        (Canonical.writeItems display quote xs' path' i)
  | _, _, .nil, _, _, _ => by
    exact .nil
  | _, _, .cons hi hie, path, path', i => by
    rw [writeItems_cons hi.defined, Canonical.writeItems]
    exact .cons (write_agrees hp hq hi _ _)
      (items_agree hp hq hie path path' (i + 1))

theorem members_agree (hp : PrintAlike shortest display) (hq : QuoteAlike quote) :
    ∀ {mems : List (List ℕ × JsValue)} {map : List (List Char × Value)},
      MatchesMembers mems map → ∀ (path : List ℕ) (path' : List Char),
      List.Forall₂ MembersAgree (writeEntries shortest mems path)
        (writeMap display quote map path')
  | _, _, .nil, _, _ => by
    exact .nil
  | _, _, .cons hmb hr, path, path' => by
    rw [writeEntries, writeMap]
    · exact .cons ⟨rfl, write_agrees hp hq hmb _ _⟩
        (members_agree hp hq hr path path')
    · exact hmb.defined

end

/-! ## What the node has no value for -/

theorem exists_items {xs : List JsValue} (h : ∀ item ∈ xs, ∃ w, Matches item w) :
    ∃ items', MatchesItems xs items' := by
  induction xs with
  | nil => exact ⟨[], .nil⟩
  | cons item xs ih =>
    rw [forall_mem_cons] at h
    obtain ⟨⟨item', hi⟩, hr⟩ := h
    obtain ⟨items', hie⟩ := ih hr
    exact ⟨item' :: items', .cons hi hie⟩

theorem exists_members (h : ∀ e ∈ mems, (∃ key, e.1 = textUnits key) ∧ ∃ w, Matches e.2 w) :
    ∃ map, MatchesMembers mems map := by
  induction mems with
  | nil => exact ⟨[], .nil⟩
  | cons e mems ih =>
    rw [forall_mem_cons] at h
    obtain ⟨⟨⟨key, hk⟩, w, hw⟩, hr⟩ := h
    obtain ⟨map, hm⟩ := ih hr
    obtain ⟨key', member⟩ := e
    obtain rfl : key' = textUnits key := hk
    exact ⟨(key, w) :: map, .cons hw hm⟩

/-- **What the server accepts, the node has a value for.** -/
theorem exists_value (v : JsValue) {text : List ℕ} (hp : v.Proper)
    (h : Wrote shortest v text) : ∃ w, Matches v w := by
  induction v using JsValue.induct generalizing text with
  | null => exact ⟨_, .null⟩
  | bool flag => exact ⟨_, .bool flag⟩
  | number x =>
    obtain ⟨path, h⟩ := h
    cases x with
    | finite x => exact ⟨.number (.float x), .number rfl⟩
    | nan | infinite neg => exact absurd h (by simp [write, canonicalNumber])
  | string us =>
    obtain ⟨path, h⟩ := h
    rw [write] at h
    split at h
    · exact absurd h (by simp)
    next hle =>
      obtain ⟨chars, rfl⟩ := exists_text hp (by simpa using hle)
      exact ⟨_, .string chars⟩
  | array xs ih =>
    rw [JsValue.Proper, properItems_iff] at hp
    obtain ⟨ts, hie, -⟩ := wrote_array h
    obtain ⟨xs', hi'⟩ := exists_items fun item hi => by
      obtain ⟨text, htx⟩ := exists_right hie hi
      exact ih item hi (hp item hi) htx
    exact ⟨_, .array hi'⟩
  | object es ih =>
    rw [JsValue.Proper, properEntries_iff] at hp
    obtain ⟨ts, hme, -⟩ := wrote_object h
    obtain ⟨map, hma⟩ := exists_members fun e he => by
      obtain ⟨text, hle, written, hv, -⟩ :=
        exists_right hme ((members_perm es).mem_iff.mpr he)
      have hm := mem_of_mem_present he
      exact ⟨exists_text (hp.2 e hm).1 hle, ih e hm (hp.2 e hm).2 hv⟩
    refine ⟨.object map, .object (List.Perm.refl _) hma ?_⟩
    have hky : ((present es).map Prod.fst).Nodup :=
      hp.1.sublist (filter_sublist.map _)
    rw [keys_members hma, ← Function.comp_def textUnits, ← map_map] at hky
    exact hky.of_map
  | undefined | instanceObject | unsupported typeName =>
    exact absurd h (by simp [Wrote, write])

end Values

/-! ## Escapes both languages share -/

/-- The escape of an ASCII character; any other stands for itself. -/
def quoteChar (c : Char) : List Char :=
  if c.toNat < 0x80 then (escapeUnit c.toNat).map Char.ofNat else [c]

/-- A text as a JSON string. -/
def quoteText (text : List Char) : List Char := '"' :: (text.flatMap quoteChar ++ ['"'])

theorem escapeUnit_ascii : ∀ unit < 0x80,
    textUnits ((escapeUnit unit).map Char.ofNat) = escapeUnit unit := by
  decide

/-- The two escapes of a character are the same. -/
theorem escape_char (c : Char) :
    (unitsOf c.toNat).flatMap escapeUnit = textUnits (quoteChar c) := by
  unfold quoteChar
  by_cases ha : c.toNat < 0x80
  · rw [if_pos ha, escapeUnit_ascii _ ha, unitsOf, if_pos (by omega)]
    simp
  have hsl : ∀ unit ∈ unitsOf c.toNat, 0x80 ≤ unit := by
    unfold unitsOf
    split <;> simp <;> omega
  have hu (unit : ℕ) (hm : unit ∈ unitsOf c.toNat) : escapeUnit unit = [unit] := by
    have hge := hsl unit hm
    exact escapeUnit_self (by omega) (by omega) (by omega)
  rw [if_neg ha, flatMap_congr hu, flatMap_singleton']
  exact (append_nil _).symm

theorem quoteText_alike : QuoteAlike quoteText := by
  intro text
  have hbo : (textUnits text).flatMap escapeUnit = textUnits (text.flatMap quoteChar) := by
    induction text with
    | nil => rfl
    | cons c text ih =>
      rw [textUnits_cons, flatMap_append, flatMap_cons, textUnits_append, escape_char, ih]
  rw [stringify, quoteText, textUnits_cons, textUnits_append, hbo]
  rfl

/-! ## The two texts -/

/-- **The server and the node write the same canonical text, or both refuse**; the server
refuses a value the node's parser has none for; and the server's key order is the order of
UTF-8 bytes. -/
theorem canonicalJson_agrees {shortest display : Finite → List Char}
    {quote : List Char → List Char} (hprint : PrintAlike shortest display)
    (hquote : QuoteAlike quote) :
    (∀ v w, Matches v w →
      Agrees (canonicalJson shortest v) (Canonical.canonicalJson display quote w)) ∧
    (∀ v : JsValue, v.Proper → (∀ w, ¬ Matches v w) →
      ∃ e, canonicalJson shortest v = .error e) ∧
    ∀ a b : List Char,
      (compareCodePoints (textUnits a) (textUnits b) < 0 ↔ Utf8.encode a < Utf8.encode b) ∧
      (compareCodePoints (textUnits a) (textUnits b) = 0 ↔ a = b) := by
  refine ⟨fun v w h => write_agrees hprint hquote h [] ['$'], fun v hp hn => ?_,
    fun a b => ⟨compareCodePoints_neg a b, compareCodePoints_zero a b⟩⟩
  cases hr : canonicalJson shortest v with
  | error e => exact ⟨e, rfl⟩
  | ok text =>
    obtain ⟨w, hw⟩ := exists_value v hp ⟨[], hr⟩
    exact absurd hw (hn w)

/-- An object the two sides enumerate in different orders. -/
theorem canonicalJson_agrees_swapped :
    Agrees
      (canonicalJson (fun _ => []) (.object [(textUnits ['b'],
        .number (Number.ofInteger false 7 (by decide))), (textUnits ['a'], .null)]))
      (Canonical.canonicalJson (fun _ => []) quoteText
        (.object [(['a'], .null), (['b'], .number (.posInt 7))])) :=
  (canonicalJson_agrees (fun _ _ _ _ => rfl) quoteText_alike).1 _ _
    (.object (List.Perm.swap _ _ _) (.cons .null (.cons (.number rfl) .nil)) (by decide))

end ModelProxy.CanonicalJson
