import Mathlib.Data.Nat.Digits.Defs
import ModelProxy.TextLines

/-! # IP literals

The server and the node each accept only the canonical text of an address another node can
reach.  The server cuts the text up by hand and writes it again; the node has its standard
library read and write it.
-/
namespace ModelProxy.Ip
open List

/-! ## Digits -/

/-- A decimal digit. -/
def isDigit (c : Char) : Bool := '0' ≤ c && c ≤ '9'

/-- A hexadecimal digit of either case. -/
def isHexDigit (c : Char) : Bool :=
  isDigit c || ('a' ≤ c && c ≤ 'f') || ('A' ≤ c && c ≤ 'F')

/-- The value of a digit of a base up to sixteen. -/
def digitValue (c : Char) : ℕ :=
  if isDigit c then c.toNat - 48 else if 'a' ≤ c then c.toNat - 87 else c.toNat - 55

/-- The number some digits write. -/
def readNumber (base : ℕ) (digits : List Char) : ℕ :=
  digits.foldl (fun n c => n * base + digitValue c) 0

/-- `^(?:0|[1-9][0-9]{0,2})$`. -/
def isOctetText (part : List Char) : Bool :=
  part == ['0'] ||
    (!part.isEmpty && part.head? != some '0' && part.all isDigit && decide (part.length ≤ 3))

/-- `^[0-9a-fA-F]{1,4}$`. -/
def isGroupText (part : List Char) : Bool :=
  !part.isEmpty && part.all isHexDigit && decide (part.length ≤ 4)

/-- Texts with a colon between them. -/
def joinColons (parts : List (List Char)) : List Char := [':'].intercalate parts

/-- What stands for a run of zeros. -/
def twoColons : List Char := [':', ':']

/-! ## The server: `ip-literal.ts` -/

/-- `parseIpv4`: the four octets of a canonical dotted quad. -/
def parseIpv4 (text : List Char) : Option (List ℕ) :=
  let parts := text.splitOn '.'
  if parts.length ≠ 4 then none
  else parts.mapM fun part =>
    if !isOctetText part then none
    else if 255 < readNumber 10 part then none
    else some (readNumber 10 part)

/-- The groups of one side of a `::`. -/
def groupTexts (half : List Char) : List (List Char) := if half = [] then [] else half.splitOn ':'

/-- `parseIpv6`: the eight groups of a text without an embedded IPv4 part. -/
def parseIpv6 (text : List Char) : Option (List ℕ) :=
  if !(decide (2 ≤ text.length) && decide (text.length ≤ 39) &&
      text.all fun c => isHexDigit c || c == ':') then none
  else
    let halves := splitWord twoColons text.length text
    if 2 < halves.length then none
    else
      let head := groupTexts (halves.headD [])
      let tail := if halves.length = 2 then groupTexts ((halves.drop 1).headD []) else []
      let all := head ++ tail
      if all.any fun group => !isGroupText group then none
      else if halves.length = 1 ∧ all.length ≠ 8 then none
      else if halves.length = 2 ∧ 7 < all.length then none
      else
        let zeros := if halves.length = 2 then 8 - all.length else 0
        some (head.map (readNumber 16) ++ List.replicate zeros 0 ++ tail.map (readNumber 16))

/-- How many zeros a list begins with. -/
def zeroRun (groups : List ℕ) : ℕ := (groups.takeWhile (· == 0)).length

/-- The loop of `formatIpv6`: where the first longest run of zeros starts, and its length.
Every turn passes a group, so their number bounds the turns. -/
def bestRun (groups : List ℕ) : ℕ → ℕ → ℕ × ℕ → ℕ × ℕ
  | 0, _, best => best
  | turns + 1, start, best =>
    if 8 ≤ start then best
    else
      let run := zeroRun (groups.drop start)
      if run = 0 then bestRun groups turns (start + 1) best
      else bestRun groups turns (start + run) (if best.2 < run then (start, run) else best)

/-- `formatIpv6`. -/
def formatIpv6 (groups : List ℕ) : List Char :=
  let (bestStart, bestLength) := bestRun groups 8 0 (0, 0)
  let hex := groups.map (Nat.toDigits 16)
  if bestLength < 2 then joinColons hex
  else
    joinColons (hex.take bestStart) ++ twoColons ++ joinColons (hex.drop (bestStart + bestLength))

/-- An address as the server reads it. -/
inductive IpLiteral
  | v4 (octets : List ℕ)
  | v6 (groups : List ℕ)

/-- `parseCanonicalIp`. -/
def parseCanonicalIp (text : List Char) : Option IpLiteral :=
  match parseIpv4 text with
  | some octets => some (.v4 octets)
  | none =>
    match parseIpv6 text with
    | some groups => if formatIpv6 groups = text then some (.v6 groups) else none
    | none => none

/-- The first 80 bits are zero and the next 16 are zero or one throughout. -/
def embedsV4 (groups : List ℕ) : Bool :=
  (groups.take 5).all (· == 0) &&
    ((groups.drop 5).headD 0 == 0 || (groups.drop 5).headD 0 == 0xffff)

/-- `isFabricIp`. -/
def isFabricIp (text : List Char) : Bool :=
  match parseCanonicalIp text with
  | none => false
  | some (.v4 octets) => octets.headD 0 != 0 && octets.headD 0 != 127
  | some (.v6 groups) => !embedsV4 groups

/-! ## The node: `is_fabric_ip` -/

namespace Node

/-- `IpAddr`. -/
inductive IpAddr
  | v4 (octets : List ℕ) (ok : octets.length = 4 ∧ ∀ octet ∈ octets, octet < 256)
  | v6 (segments : List ℕ) (ok : segments.length = 8 ∧ ∀ segment ∈ segments, segment < 65536)
deriving DecidableEq

/-- An IPv4 address of four octets. -/
def toOctets (values : List ℕ) : Option IpAddr :=
  if ok : values.length = 4 ∧ ∀ octet ∈ values, octet < 256 then some (.v4 values ok) else none

/-- An IPv6 address of eight segments. -/
def toSegments (values : List ℕ) : Option IpAddr :=
  if ok : values.length = 8 ∧ ∀ segment ∈ values, segment < 65536 then some (.v6 values ok)
  else none

/-- A text of groups between colons. -/
def readGroups (half : List Char) : Option (List ℕ) :=
  if half = [] then some []
  else (half.splitOn ':').mapM fun part =>
    if isGroupText part then some (readNumber 16 part) else none

/-- `parse::<IpAddr>()`, for texts that are no IPv6 address with an embedded IPv4 part: a dotted
quad without leading zeros, or eight groups of which a `::` may stand for one or more. -/
def parse (text : List Char) : Option IpAddr :=
  let parts := text.splitOn '.'
  if parts.length = 4 ∧ parts.all isOctetText = true then toOctets (parts.map (readNumber 10))
  else
    match splitAtFirst twoColons text with
    | none => (readGroups text).bind toSegments
    | some (head, found) => do
        let head ← readGroups head
        let tail ← readGroups (found.drop 2)
        if 7 < head.length + tail.length then none
        else toSegments (head ++ List.replicate (8 - (head.length + tail.length)) 0 ++ tail)

/-- A run of zero segments. -/
structure Span where
  start : ℕ
  len : ℕ
deriving DecidableEq

/-- One segment in the search for the longest run: the longest and the current run. -/
def zeroes (spans : Span × Span) (segment : ℕ × ℕ) : Span × Span :=
  if segment.1 = 0 then
    let current : Span :=
      ⟨if spans.2.len = 0 then segment.2 else spans.2.start, spans.2.len + 1⟩
    (if spans.1.len < current.len then current else spans.1, current)
  else (spans.1, ⟨0, 0⟩)

/-- The first of the longest runs of zeros. -/
def longestZeroes (segments : List ℕ) : Span :=
  (segments.zipIdx.foldl zeroes (⟨0, 0⟩, ⟨0, 0⟩)).1

/-- An IPv6 address as Rust writes it. -/
def displayV6 (segments : List ℕ) : List Char :=
  if segments.take 6 = [0, 0, 0, 0, 0, 0xffff] then
    -- An IPv4-mapped address.
    "::ffff:".toList ++ ['.'].intercalate ((segments.drop 6).flatMap fun segment =>
      [Nat.toDigits 10 (segment / 256), Nat.toDigits 10 (segment % 256)])
  else
    let run := longestZeroes segments
    let hex := segments.map (Nat.toDigits 16)
    if 1 < run.len then
      joinColons (hex.take run.start) ++ twoColons ++ joinColons (hex.drop (run.start + run.len))
    else joinColons hex

/-- `to_string`. -/
def IpAddr.display : IpAddr → List Char
  | .v4 octets _ => ['.'].intercalate (octets.map (Nat.toDigits 10))
  | .v6 segments _ => displayV6 segments

/-- `is_fabric_ip`. -/
def isFabricIp (value : List Char) : Bool :=
  match parse value with
  | some (.v4 octets ok) =>
    decide ((IpAddr.v4 octets ok).display = value) && octets.headD 0 != 0 &&
      octets.headD 0 != 127
  | some (.v6 segments ok) =>
    !value.contains '.' && decide ((IpAddr.v6 segments ok).display = value) &&
      !embedsV4 segments
  | none => false

end Node

/-! ## Digits written and read -/

variable {c : Char} {part p : List Char} {groups vs : List ℕ}

section Digits
variable {b n : ℕ}

/-- Induction on the digits of a number. -/
theorem toDigits_induct {P : ℕ → List Char → Prop} (hb : 1 < b)
    (digit : ∀ d < b, P d [Nat.digitChar d])
    (more : ∀ n d, 0 < n → d < b → P n (Nat.toDigits b n) →
      P (b * n + d) (Nat.toDigits b n ++ [Nat.digitChar d])) (n : ℕ) :
    P n (Nat.toDigits b n) := by
  induction n using Nat.strong_induction_on with
  | h n ih =>
    by_cases hlt : n < b
    · rw [Nat.toDigits_of_lt_base hlt]
      exact digit n hlt
    have hp : 0 < n / b := Nat.div_pos (by omega) (by omega)
    have hm : n % b < b := Nat.mod_lt n (by omega)
    have hs : b * (n / b) + n % b = n := Nat.div_add_mod n b
    have hd : Nat.toDigits b n =
        Nat.toDigits b (n / b) ++ [Nat.digitChar (n % b)] := by
      rw [← Nat.toDigits_of_lt_base hm, Nat.toDigits_append_toDigits hb hp hm, hs]
    have hP := more (n / b) (n % b) hp hm (ih _ (Nat.div_lt_self (by omega) hb))
    rw [hs] at hP
    rwa [hd]

theorem readNumber_append (b : ℕ) (ds : List Char) (c : Char) :
    readNumber b (ds ++ [c]) = readNumber b ds * b + digitValue c := by
  simp [readNumber]

theorem digitValue_digitChar : ∀ d < 16, digitValue (Nat.digitChar d) = d := by decide

theorem readNumber_toDigits (hb : 1 < b) (hle : b ≤ 16) (n : ℕ) :
    readNumber b (Nat.toDigits b n) = n := by
  refine toDigits_induct (P := fun n ds => readNumber b ds = n) hb ?_ ?_ n
  · intro d hd
    simp [readNumber, digitValue_digitChar d (by omega)]
  · intro n d _ hd ih
    rw [readNumber_append, ih, digitValue_digitChar d (by omega), mul_comm]

theorem isHexDigit_digitChar : ∀ d < 16, isHexDigit (Nat.digitChar d) = true := by decide

theorem all_toDigits {P : Char → Prop} (hb : 1 < b)
    (hP : ∀ d < b, P (Nat.digitChar d)) (n : ℕ) : ∀ c ∈ Nat.toDigits b n, P c := by
  refine toDigits_induct (P := fun _ ds => ∀ c ∈ ds, P c) hb ?_ ?_ n
  · intro d hd c hc
    rw [mem_singleton.mp hc]
    exact hP d hd
  · intro n d _ hd ih c hc
    rcases mem_append.mp hc with hc | hc
    · exact ih c hc
    · rw [mem_singleton.mp hc]
      exact hP d hd

/-- A group as it is written is one that is read. -/
theorem isGroupText_toDigits (h : n < 65536) : isGroupText (Nat.toDigits 16 n) = true := by
  have hh : ∀ c ∈ Nat.toDigits 16 n, isHexDigit c = true :=
    all_toDigits (by omega) isHexDigit_digitChar n
  have hl : (Nat.toDigits 16 n).length ≤ 4 := Nat.toDigits_length 16 n 4 (by omega) h
  have hne : Nat.toDigits 16 n ≠ [] := Nat.toDigits_ne_nil
  simp [isGroupText, hne, hl, all_eq_true.mpr hh]

theorem digitChar_digitValue (h : isDigit c = true) :
    digitValue c < 10 ∧ Nat.digitChar (digitValue c) = c := by
  have hc : ∀ n < 58, 48 ≤ n → Nat.digitChar (n - 48) = Char.ofNat n := by decide
  rw [digitValue, if_pos h]
  rw [isDigit, Bool.and_eq_true, decide_eq_true_eq, decide_eq_true_eq] at h
  have hle : c.toNat ≤ 57 := h.2
  exact ⟨by omega, (hc c.toNat (by omega) h.1).trans (Char.ofNat_toNat c)⟩

/-- Digits behind a number that is not zero are written as they are read. -/
theorem toDigits_foldl {digits : List Char} (h : ∀ c ∈ digits, isDigit c = true) (hn : 0 < n) :
    Nat.toDigits 10 (digits.foldl (fun n c => n * 10 + digitValue c) n) =
      Nat.toDigits 10 n ++ digits := by
  induction digits generalizing n with
  | nil => simp
  | cons c digits ih =>
    obtain ⟨hlt, hch⟩ := digitChar_digitValue (h c (by simp))
    rw [foldl_cons, ih (fun c hc => h c (by simp [hc])) (by omega), mul_comm,
      ← Nat.toDigits_append_toDigits (by omega) hn hlt, Nat.toDigits_of_lt_base hlt, hch,
      append_assoc, singleton_append]

/-- An octet has one text. -/
theorem toDigits_readNumber (h : isOctetText part = true) :
    Nat.toDigits 10 (readNumber 10 part) = part := by
  simp only [isOctetText, Bool.or_eq_true, beq_iff_eq, Bool.and_eq_true, bne_iff_ne, ne_eq,
    all_eq_true] at h
  obtain rfl | ⟨⟨⟨hne, hf⟩, hg⟩, -⟩ := h
  · decide
  cases part with
  | nil => simp at hne
  | cons c part =>
    obtain ⟨hlt, hch⟩ := digitChar_digitValue (hg c (by simp))
    have hp : 0 < digitValue c := by
      refine pos_of_ne_zero fun hz => hf ?_
      rw [hz] at hch
      exact congrArg some hch.symm
    have hr := toDigits_foldl (fun d hd => hg d (mem_cons_of_mem c hd)) hp
    rw [Nat.toDigits_of_lt_base hlt, hch] at hr
    simpa [readNumber] using hr

theorem digitValue_lt (h : isHexDigit c = true) : digitValue c < 16 := by
  have hvl : ∀ n < 103, isHexDigit (Char.ofNat n) = true → digitValue (Char.ofNat n) < 16 := by
    decide
  have hle : c.toNat < 103 := by
    simp only [isHexDigit, isDigit, Bool.or_eq_true, Bool.and_eq_true, decide_eq_true_eq] at h
    obtain (⟨-, h⟩ | ⟨-, h⟩) | ⟨-, h⟩ := h <;> exact lt_of_le_of_lt h (by decide)
  rw [← Char.ofNat_toNat c] at h ⊢
  exact hvl _ hle h

theorem readNumber_lt (h : isGroupText p = true) : readNumber 16 p < 65536 := by
  simp only [isGroupText, Bool.and_eq_true, all_eq_true, decide_eq_true_eq] at h
  obtain ⟨⟨-, hh⟩, hl⟩ := h
  have hb : ∀ ds : List Char, (∀ c ∈ ds, isHexDigit c = true) →
      readNumber 16 ds < 16 ^ ds.length := by
    intro ds hd
    induction ds using reverseRecOn with
    | nil => simp [readNumber]
    | append_singleton ds c ih =>
      have hlt := digitValue_lt (hd c (by simp))
      have hr := ih fun c hc => hd c (by simp [hc])
      rw [readNumber_append, length_append, length_singleton, pow_succ]
      omega
  calc readNumber 16 p < 16 ^ p.length := hb p hh
    _ ≤ 16 ^ 4 := Nat.pow_le_pow_right (by omega) hl

end Digits

/-! ## Groups between colons -/

section

/-- No two colons stand together, and none stands at the end. -/
def Spaced : List Char → Prop
  | [] => True
  | [c] => c ≠ ':'
  | c :: d :: rest => (c = ':' → d ≠ ':') ∧ Spaced (d :: rest)

variable {text : List Char}

theorem splitAtFirst_spaced (h : Spaced text) : splitAtFirst twoColons text = none := by
  induction text with
  | nil => rfl
  | cons c rest ih =>
    cases rest with
    | nil => simp [splitAtFirst, twoColons]
    | cons d rest =>
      obtain ⟨hpr, hr⟩ := h
      have hn : ¬ twoColons <+: c :: d :: rest := by
        intro hp
        obtain ⟨hc, hp⟩ := cons_prefix_cons.mp hp
        exact hpr hc.symm (cons_prefix_cons.mp hp).1.symm
      rw [splitAtFirst, if_neg hn, ih hr]
      rfl

theorem splitAtFirst_spaced_append (h : Spaced text) (rest : List Char) :
    splitAtFirst twoColons (text ++ twoColons ++ rest) = some (text, twoColons ++ rest) := by
  induction text with
  | nil => rfl
  | cons c text ih =>
    have hn : ¬ twoColons <+: c :: (text ++ twoColons ++ rest) := by
      intro hp
      obtain ⟨hc, hp⟩ := cons_prefix_cons.mp hp
      cases text with
      | nil => exact h hc.symm
      | cons d text => exact h.1 hc.symm (cons_prefix_cons.mp hp).1.symm
    have hs : Spaced text := by
      cases text with
      | nil => trivial
      | cons d text => exact h.2
    rw [cons_append, cons_append, splitAtFirst, if_neg hn, ih hs]
    rfl

theorem spaced_append (hpt : ':' ∉ p) (hne : p ≠ []) (htx : Spaced text) (hh : text ≠ [])
    (hl : text.head? ≠ some ':') : Spaced (p ++ ':' :: text) := by
  induction p with
  | nil => exact absurd rfl hne
  | cons c p ih =>
    have hc : c ≠ ':' := fun heq => hpt (by simp [heq])
    cases p with
    | nil =>
      refine ⟨fun heq => absurd heq hc, ?_⟩
      cases text with
      | nil => exact absurd rfl hh
      | cons d text => exact ⟨fun _ heq => hl (by simp [heq]), htx⟩
    | cons d p =>
      exact ⟨fun heq => absurd heq hc, ih (fun hm => hpt (mem_cons_of_mem c hm)) (cons_ne_nil d p)⟩

theorem spaced_of_notMem (h : ':' ∉ part) : Spaced part := by
  induction part with
  | nil => trivial
  | cons c part ih =>
    have hc : c ≠ ':' := fun heq => h (by simp [heq])
    cases part with
    | nil => exact hc
    | cons d part =>
      exact ⟨fun heq => absurd heq hc, ih fun hm => h (mem_cons_of_mem c hm)⟩

variable {parts : List (List Char)}

theorem joinColons_cons_cons (p next : List Char) (parts : List (List Char)) :
    joinColons (p :: next :: parts) = p ++ ':' :: joinColons (next :: parts) := by
  rfl

theorem joinColons_singleton (part : List Char) : joinColons [part] = part := by
  simp [joinColons]

/-- The head of a text of groups is the head of the first. -/
theorem head_joinColons (hne : ∀ p ∈ parts, p ≠ []) (hl : ∀ p ∈ parts, ':' ∉ p) (hp : parts ≠ []) :
    joinColons parts ≠ [] ∧ (joinColons parts).head? ≠ some ':' := by
  cases parts with
  | nil => exact absurd rfl hp
  | cons p parts =>
    have hpt := hne p (by simp)
    have hno := hl p (by simp)
    obtain ⟨rest, hr⟩ : ∃ rest, joinColons (p :: parts) = p ++ rest := by
      cases parts with
      | nil => exact ⟨[], by rw [joinColons_singleton, append_nil]⟩
      | cons next parts => exact ⟨_, joinColons_cons_cons p next parts⟩
    rw [hr]
    cases p with
    | nil => exact absurd rfl hpt
    | cons c p =>
      refine ⟨by simp, fun heq => hno ?_⟩
      have hc : c = ':' := Option.some.inj heq
      simp [hc]

theorem spaced_joinColons (hne : ∀ part ∈ parts, part ≠ []) (hc : ∀ part ∈ parts, ':' ∉ part) :
    Spaced (joinColons parts) := by
  induction parts with
  | nil => trivial
  | cons part parts ih =>
    have ih := ih (fun p hp => hne p (by simp [hp])) (fun p hp => hc p (by simp [hp]))
    cases parts with
    | nil =>
      rw [joinColons_singleton]
      exact spaced_of_notMem (hc part (by simp))
    | cons next parts =>
      obtain ⟨hjn, hh⟩ := head_joinColons (fun p hp => hne p (by simp [hp]))
        (fun p hp => hc p (by simp [hp])) (cons_ne_nil next parts)
      exact spaced_append (hc part (by simp)) (hne part (by simp)) ih hjn hh

theorem groupTexts_joinColons (hne : ∀ p ∈ parts, p ≠ [])
    (hc : ∀ p ∈ parts, ':' ∉ p) : groupTexts (joinColons parts) = parts := by
  by_cases hp : parts = []
  · subst hp
    rfl
  · rw [groupTexts, if_neg (head_joinColons hne hc hp).1]
    exact splitOn_intercalate ':' hc hp

theorem length_joinColons (hl : ∀ part ∈ parts, part.length ≤ 4) :
    parts.length ≤ (joinColons parts).length + 1 ∧
      (joinColons parts).length ≤ 5 * parts.length - 1 := by
  induction parts with
  | nil => simp [joinColons]
  | cons part parts ih =>
    have ih := ih fun p hp => hl p (by simp [hp])
    have hpt := hl part (by simp)
    cases parts with
    | nil =>
      rw [joinColons_singleton, length_singleton]
      omega
    | cons next parts =>
      rw [joinColons_cons_cons]
      simp only [length_append, length_cons] at ih ⊢
      omega

end

/-! ## The longest run of zeros -/

/-- Zeros, with one in the place of every other number. -/
def sign (groups : List ℕ) : List ℕ := groups.map fun group => if group = 0 then 0 else 1

theorem zeroRun_sign (groups : List ℕ) : zeroRun (sign groups) = zeroRun groups := by
  induction groups with
  | nil => rfl
  | cons g groups ih =>
    unfold zeroRun sign at ih ⊢
    by_cases hz : g = 0
    · simpa [hz] using ih
    · simp [hz]

theorem bestRun_sign (groups : List ℕ) (n start : ℕ) (best : ℕ × ℕ) :
    bestRun (sign groups) n start best = bestRun groups n start best := by
  induction n generalizing start best with
  | zero => rfl
  | succ n ih =>
    have hdr : zeroRun ((sign groups).drop start) = zeroRun (groups.drop start) := by
      rw [← zeroRun_sign (groups.drop start), sign, sign, map_drop]
    unfold bestRun
    simp only [hdr, ih]

theorem longestZeroes_sign (groups : List ℕ) :
    Node.longestZeroes (sign groups) = Node.longestZeroes groups := by
  have hfd (start : ℕ) (spans : Node.Span × Node.Span) :
      ((sign groups).zipIdx start).foldl Node.zeroes spans =
        (groups.zipIdx start).foldl Node.zeroes spans := by
    induction groups generalizing start spans with
    | nil => rfl
    | cons g groups ih =>
      have hsp : Node.zeroes spans ((if g = 0 then 0 else 1), start) =
          Node.zeroes spans (g, start) := by
        by_cases hz : g = 0 <;> simp [Node.zeroes, hz]
      simp only [sign, map_cons, zipIdx_cons, foldl_cons, hsp] at ih ⊢
      exact ih (start + 1) _
  exact congrArg Prod.fst (hfd 0 _)

/-- What is read off the zeros of eight groups. -/
structure RunOk (groups : List ℕ) : Prop where
  same : bestRun groups 8 0 (0, 0) =
    ((Node.longestZeroes groups).start, (Node.longestZeroes groups).len)
  bound : (bestRun groups 8 0 (0, 0)).1 + (bestRun groups 8 0 (0, 0)).2 ≤ 8
  zeros : ((groups.drop (bestRun groups 8 0 (0, 0)).1).take (bestRun groups 8 0 (0, 0)).2).all
    (· == 0) = true

theorem runOk_bits : ∀ a b c d e f g h : Bool,
    let groups := [a, b, c, d, e, f, g, h].map fun bit : Bool => if bit then 1 else 0
    bestRun groups 8 0 (0, 0) =
        ((Node.longestZeroes groups).start, (Node.longestZeroes groups).len) ∧
      (bestRun groups 8 0 (0, 0)).1 + (bestRun groups 8 0 (0, 0)).2 ≤ 8 ∧
      ((groups.drop (bestRun groups 8 0 (0, 0)).1).take (bestRun groups 8 0 (0, 0)).2).all
        (· == 0) = true := by
  decide +kernel

/-- **The two searches find the same run**: which groups are zero decides it. -/
theorem runOk (h : groups.length = 8) : RunOk groups := by
  match groups, h with
  | [a, b, c, d, e, f, g, h], _ =>
    have hbi := runOk_bits (decide (a ≠ 0)) (decide (b ≠ 0)) (decide (c ≠ 0)) (decide (d ≠ 0))
      (decide (e ≠ 0)) (decide (f ≠ 0)) (decide (g ≠ 0)) (decide (h ≠ 0))
    have hsg : ([decide (a ≠ 0), decide (b ≠ 0), decide (c ≠ 0), decide (d ≠ 0),
        decide (e ≠ 0), decide (f ≠ 0), decide (g ≠ 0), decide (h ≠ 0)].map
        fun bit : Bool => if bit then 1 else 0) = sign [a, b, c, d, e, f, g, h] := by
      simp [sign]
    rw [hsg] at hbi
    simp only [bestRun_sign, longestZeroes_sign] at hbi
    obtain ⟨hsm, hb, hr⟩ := hbi
    refine ⟨hsm, hb, ?_⟩
    rw [sign, ← map_drop, ← map_take, all_map] at hr
    rw [← hr]
    congr 1
    funext group
    by_cases hz : group = 0 <;> simp [hz]

/-- The groups around the run of zeros. -/
theorem RunOk.split (h : RunOk groups) (hl : groups.length = 8) :
    groups.take (bestRun groups 8 0 (0, 0)).1 ++ replicate (bestRun groups 8 0 (0, 0)).2 0 ++
        groups.drop ((bestRun groups 8 0 (0, 0)).1 + (bestRun groups 8 0 (0, 0)).2) = groups := by
  obtain ⟨-, hb, hz⟩ := h
  generalize (bestRun groups 8 0 (0, 0)).1 = start at hb hz
  generalize (bestRun groups 8 0 (0, 0)).2 = run at hb hz
  have hr : replicate run 0 = (groups.drop start).take run := by
    refine (eq_replicate_iff.mpr ⟨?_, fun g hg => ?_⟩).symm
    · rw [length_take, length_drop]
      omega
    · exact eq_of_beq (all_eq_true.mp hz g hg)
  rw [hr, ← drop_drop, append_assoc, take_append_drop, take_append_drop]

/-! ## The server and the node accept the same texts -/

section

variable {groups octets : List ℕ} {text : List Char}

/-- Parts that are read one by one are read where each of them is. -/
theorem mapM_ite {α β : Type} (p : α → Bool) (g : α → β) (l : List α) :
    (l.mapM fun a => if p a then some (g a) else none) =
      if l.all p then some (l.map g) else none := by
  induction l with
  | nil => rfl
  | cons a l ih =>
    rw [mapM_cons, ih, all_cons, map_cons]
    cases p a <;> cases l.all p <;> rfl

theorem toSegments_some {address : Node.IpAddr} :
    Node.toSegments vs = some address ↔ ∃ ok, address = .v6 vs ok := by
  unfold Node.toSegments
  split_ifs with hok
  · rw [Option.some_inj, eq_comm, exists_prop_of_true hok]
  · exact ⟨nofun, fun ⟨ok, _⟩ => absurd ok hok⟩

/-- What the server reads as four octets. -/
theorem parseIpv4_some : parseIpv4 text = some octets ↔ (text.splitOn '.').length = 4 ∧
    (∀ p ∈ text.splitOn '.', isOctetText p = true ∧ readNumber 10 p < 256) ∧
      (text.splitOn '.').map (readNumber 10) = octets := by
  have hpt : (fun p => if !isOctetText p then none
      else if 255 < readNumber 10 p then none else some (readNumber 10 p)) =
      fun p => if isOctetText p && decide (readNumber 10 p < 256) then
        some (readNumber 10 p) else none := by
    funext p
    split_ifs <;> simp_all <;> omega
  unfold parseIpv4
  simp only [hpt, mapM_ite]
  simp

/-- The node reads a dotted quad as the server does. -/
theorem parseIpv4_iff :
    parseIpv4 text = some octets ↔ ∃ ok, Node.parse text = some (.v4 octets ok) := by
  rw [parseIpv4_some]
  unfold Node.parse
  by_cases hqd : (text.splitOn '.').length = 4 ∧ (text.splitOn '.').all isOctetText = true
  · rw [if_pos hqd, Node.toOctets]
    obtain ⟨hl, ht⟩ := hqd
    grind
  rw [if_neg hqd]
  constructor
  · rintro ⟨hl, ht, -⟩
    exact absurd ⟨hl, all_eq_true.mpr fun p hpt => (ht p hpt).1⟩ hqd
  rintro ⟨ok, h⟩
  split at h
  next =>
    obtain ⟨vs, -, h⟩ := Option.bind_eq_some_iff.mp h
    obtain ⟨_, h⟩ := toSegments_some.mp h
    cases h
  next =>
  simp only [Option.bind_eq_bind, Option.bind_eq_some_iff] at h
  obtain ⟨_, -, _, -, h⟩ := h
  split_ifs at h
  obtain ⟨_, h⟩ := toSegments_some.mp h
  cases h

theorem readGroups_eq (ha : List Char) : Node.readGroups ha =
    if (groupTexts ha).all isGroupText then some ((groupTexts ha).map (readNumber 16))
    else none := by
  rw [← mapM_ite]
  unfold Node.readGroups groupTexts
  split <;> rfl

/-- Between groups no two colons stand together. -/
theorem splitAtFirst_of_groups (h : (groupTexts text).all isGroupText = true) :
    splitAtFirst twoColons text = none := by
  unfold groupTexts at h
  split_ifs at h with hn
  · rw [hn]
    rfl
  have hpt : ∀ part ∈ text.splitOn ':', part ≠ [] ∧ ':' ∉ part := by
    intro part hpt
    have hg := all_eq_true.mp h part hpt
    simp only [isGroupText, Bool.and_eq_true, all_eq_true] at hg
    refine ⟨by simpa using hg.1.1, fun hc => absurd (hg.1.2 _ hc) (by decide)⟩
  rw [← @intercalate_splitOn _ text _ _ ':']
  exact splitAtFirst_spaced (spaced_joinColons (fun part h => (hpt part h).1)
    fun part h => (hpt part h).2)

theorem splitWord_of_none {w : List Char} (h : splitAtFirst w text = none) (n : ℕ) :
    splitWord w n text = [text] := by
  cases n with
  | zero => rfl
  | succ n => rw [splitWord, h]

theorem splitWord_cases (w : List Char) (n : ℕ) (text : List Char) :
    splitWord w n text = [text] ∨ 1 < (splitWord w n text).length := by
  cases n with
  | zero => exact .inl rfl
  | succ n =>
    rw [splitWord]
    split
    next => exact .inl rfl
    next pre found _ =>
      rcases splitWord_cases w n (found.drop w.length) with h | h
      · exact .inr (by simp [h])
      · exact .inr (by rw [length_cons]; omega)

theorem splitOn_of_notMem {d : Char} (h : d ∉ text) : text.splitOn d = [text] := by
  have ho : ([d].intercalate [text]).splitOn d = [text] :=
    splitOn_intercalate d (by simpa using h) (by simp)
  simpa using ho

/-- What `parseIpv6` asks of a text before it reads it. -/
structure Ipv6Chars (text : List Char) : Prop where
  two : 2 ≤ text.length
  short : text.length ≤ 39
  chars : ∀ c ∈ text, isHexDigit c = true ∨ c = ':'

theorem Ipv6Chars.dot (h : Ipv6Chars text) : '.' ∉ text := by
  intro hd
  rcases h.chars '.' hd with h | h <;> cases h

theorem toSegments_iff (hlt : ∀ v ∈ vs, v < 65536) :
    (∃ ok, Node.toSegments vs = some (.v6 groups ok)) ↔
      vs.length = 8 ∧ vs = groups := by
  simp only [toSegments_some, Node.IpAddr.v6.injEq]
  constructor
  · rintro ⟨_, ok, rfl⟩
    exact ⟨ok.1, rfl⟩
  · rintro ⟨hl, rfl⟩
    exact ⟨⟨hl, hlt⟩, ⟨hl, hlt⟩, rfl⟩

/-- The node reads an IPv6 text as the server does. -/
theorem parseIpv6_iff : parseIpv6 text = some groups ↔
    Ipv6Chars text ∧ ∃ ok, Node.parse text = some (.v6 groups ok) := by
  have hh : (decide (2 ≤ text.length) && decide (text.length ≤ 39) &&
      text.all fun c => isHexDigit c || c == ':') = true ↔ Ipv6Chars text := by
    simp only [Bool.and_eq_true, decide_eq_true_eq, all_eq_true, Bool.or_eq_true, beq_iff_eq]
    exact ⟨fun ⟨⟨ht, hsh⟩, h⟩ => ⟨ht, hsh, h⟩, fun h => ⟨⟨h.two, h.short⟩, h.chars⟩⟩
  by_cases hc : Ipv6Chars text
  swap
  · simp [parseIpv6, Bool.eq_false_iff.mpr (mt hh.mp hc), hc]
  have hy (parts : List (List Char)) :
      (parts.any fun g => !isGroupText g) = !parts.all isGroupText :=
    not_all_eq_any_not.symm
  have hlt {hf : List Char} (h : (groupTexts hf).all isGroupText = true) :
      ∀ p ∈ groupTexts hf, readNumber 16 p < 65536 := fun p hpt =>
    readNumber_lt (all_eq_true.mp h p hpt)
  unfold parseIpv6 Node.parse
  simp only [hh.mpr hc, splitOn_of_notMem hc.dot, readGroups_eq, and_iff_right hc, hy,
    length_singleton]
  cases hs : splitAtFirst twoColons text with
  | none =>
    rw [splitWord_of_none hs]
    by_cases ha : (groupTexts text).all isGroupText = true
    · simp [ha, toSegments_iff (forall_mem_map.mpr (hlt ha))]
    · simp [ha]
  | some found =>
    obtain ⟨head, found⟩ := found
    obtain ⟨n, htu⟩ := Nat.exists_eq_add_of_le' (Nat.le_of_succ_le hc.two)
    rw [htu, splitWord, hs]
    by_cases ha : (groupTexts head).all isGroupText = true
    swap
    · simp [ha]
    have ht : twoColons.length = 2 := rfl
    by_cases hr : (groupTexts (found.drop 2)).all isGroupText = true
    · simp [ha, hr, ht, splitWord_of_none (splitAtFirst_of_groups hr)]
      intro hle
      rw [toSegments_iff (by simpa [or_imp, forall_and] using ⟨hlt ha, hlt hr⟩)]
      simp
      omega
    · rcases splitWord_cases twoColons n (found.drop 2) with h | h <;>
        simp [h, ha, hr, ht]

/-- The texts of the groups, as they stand between colons. -/
structure HexTexts (groups : List ℕ) : Prop where
  ne_nil : ∀ part ∈ groups.map (Nat.toDigits 16), part ≠ []
  colon : ∀ part ∈ groups.map (Nat.toDigits 16), ':' ∉ part
  short : ∀ part ∈ groups.map (Nat.toDigits 16), part.length ≤ 4
  group : ∀ part ∈ groups.map (Nat.toDigits 16), isGroupText part = true
  hex : ∀ part ∈ groups.map (Nat.toDigits 16), ∀ c ∈ part, isHexDigit c = true
  value : (groups.map (Nat.toDigits 16)).map (readNumber 16) = groups

theorem hexTexts (h : ∀ g ∈ groups, g < 65536) : HexTexts groups := by
  have hpt {P : List Char → Prop} (hP : ∀ g ∈ groups, P (Nat.toDigits 16 g)) :
      ∀ part ∈ groups.map (Nat.toDigits 16), P part := by
    intro part hpt
    obtain ⟨g, hg, rfl⟩ := mem_map.mp hpt
    exact hP g hg
  refine ⟨hpt fun _ _ => Nat.toDigits_ne_nil, hpt fun g _ hm => ?_,
    hpt fun g hg => Nat.toDigits_length 16 g 4 (by omega) (h g hg),
    hpt fun g hg => isGroupText_toDigits (h g hg),
    hpt fun g _ => all_toDigits (by omega) isHexDigit_digitChar g, ?_⟩
  · exact all_toDigits (P := (· ≠ ':')) (by omega) (by decide) g ':' hm rfl
  · rw [map_map]
    conv_rhs => rw [← map_id groups]
    refine map_congr_left fun g _ => ?_
    exact readNumber_toDigits (by omega) (by omega) g

/-- A text that writes some groups, and how the node reads it. -/
structure Written (groups : List ℕ) (text : List Char) : Prop where
  long : groups.length ≤ text.length + 1
  short : text.length ≤ 5 * groups.length - 1
  chars : ∀ c ∈ text, isHexDigit c = true ∨ c = ':'
  spaced : Spaced text
  read : Node.readGroups text = some groups

theorem HexTexts.written (h : HexTexts groups) :
    Written groups (joinColons (groups.map (Nat.toDigits 16))) := by
  obtain ⟨hlo, hs⟩ := length_joinColons h.short
  rw [length_map] at hlo hs
  refine ⟨hlo, hs, fun c hc => ?_, spaced_joinColons h.ne_nil h.colon, ?_⟩
  · rcases mem_intercalate hc with rfl | ⟨p, hpt, hc⟩
    · exact .inr rfl
    · exact .inl (h.hex p hpt c hc)
  · rw [readGroups_eq, groupTexts_joinColons h.ne_nil h.colon,
      if_pos (all_eq_true.mpr h.group), h.value]

/-- All eight groups written out. -/
theorem parse_whole (h : Written groups text) (ok : groups.length = 8 ∧ ∀ g ∈ groups, g < 65536) :
    Ipv6Chars text ∧ (3 ≤ text.length ∨ embedsV4 groups = true) ∧
      Node.parse text = some (.v6 groups ok) := by
  have hlo := h.long
  have hs := h.short
  have hc : Ipv6Chars text := ⟨by omega, by omega, h.chars⟩
  refine ⟨hc, .inl (by omega), ?_⟩
  unfold Node.parse
  rw [splitOn_of_notMem hc.dot, splitAtFirst_spaced h.spaced]
  simp only [length_singleton, Nat.reduceEqDiff, false_and, if_false, h.read, Option.bind_some]
  exact dif_pos ok

/-- Some groups left out between two colons. -/
theorem parse_shortened {front back : List ℕ} {head last : List Char}
    (hf : Written front head) (hbk : Written back last)
    (hl : front.length + back.length ≤ 6)
    (hg : front ++ replicate (8 - (front.length + back.length)) 0 ++ back = groups)
    (ok : groups.length = 8 ∧ ∀ g ∈ groups, g < 65536) :
    Ipv6Chars (head ++ twoColons ++ last) ∧
      (3 ≤ (head ++ twoColons ++ last).length ∨ embedsV4 groups = true) ∧
      Node.parse (head ++ twoColons ++ last) = some (.v6 groups ok) := by
  have hs := hf.short
  have hs' := hbk.short
  have hto : (head ++ twoColons ++ last).length = head.length + 2 + last.length := by
    rw [length_append, length_append]
    rfl
  have hc : Ipv6Chars (head ++ twoColons ++ last) := by
    refine ⟨by omega, by omega, ?_⟩
    simp only [mem_append, or_imp, forall_and]
    exact ⟨⟨hf.chars, by simp [twoColons]⟩, hbk.chars⟩
  have ht : 3 ≤ (head ++ twoColons ++ last).length ∨ embedsV4 groups = true := by
    rcases eq_zero_or_pos (head.length + last.length) with hz | hp
    · obtain ⟨hh, hla⟩ := Nat.add_eq_zero_iff.mp hz
      cases length_eq_zero_iff.mp hh
      cases length_eq_zero_iff.mp hla
      cases hf.read
      cases hbk.read
      rw [← hg]
      exact .inr rfl
    · exact .inl (by omega)
  have hdr : (twoColons ++ last).drop 2 = last := rfl
  refine ⟨hc, ht, ?_⟩
  unfold Node.parse
  rw [splitOn_of_notMem hc.dot, splitAtFirst_spaced_append hf.spaced]
  simp only [length_singleton, Nat.reduceEqDiff, false_and, if_false, hf.read, hdr,
    hbk.read, Option.bind_eq_bind, Option.bind_some]
  rw [if_neg (by omega), hg]
  exact dif_pos ok

/-- **What the server writes for eight groups is read as these groups**, and only zeros are
written as two colons. -/
theorem parse_format (ok : groups.length = 8 ∧ ∀ g ∈ groups, g < 65536) :
    Ipv6Chars (formatIpv6 groups) ∧ (3 ≤ (formatIpv6 groups).length ∨ embedsV4 groups = true) ∧
      Node.parse (formatIpv6 groups) = some (.v6 groups ok) := by
  have hrun := runOk ok.1
  have hspl := hrun.split ok.1
  have hbou := hrun.bound
  unfold formatIpv6
  generalize bestRun groups 8 0 (0, 0) = run at hspl hbou ⊢
  obtain ⟨start, len⟩ := run
  dsimp only at hspl hbou ⊢
  split
  next => exact parse_whole (hexTexts ok.2).written ok
  next hlo =>
  have hfro : (groups.take start).length = start := by
    rw [length_take]
    omega
  have hbk : (groups.drop (start + len)).length = 8 - (start + len) := by
    rw [length_drop, ok.1]
  have hzer : 8 - ((groups.take start).length + (groups.drop (start + len)).length) = len := by
    omega
  rw [← map_take, ← map_drop]
  exact parse_shortened (hexTexts fun g h => ok.2 g (mem_of_mem_take h)).written
    (hexTexts fun g h => ok.2 g (mem_of_mem_drop h)).written (by omega)
    (by rw [hzer, hspl]) ok

/-- The node writes an address without an embedded IPv4 part as the server does. -/
theorem formatIpv6_eq {segments : List ℕ} (hl : segments.length = 8)
    (hp : segments.take 6 ≠ [0, 0, 0, 0, 0, 0xffff]) :
    Node.displayV6 segments = formatIpv6 segments := by
  have hsm := (runOk hl).same
  unfold Node.displayV6 formatIpv6
  rw [if_neg hp, hsm]
  dsimp only
  by_cases hlo : 1 < (Node.longestZeroes segments).len
  · rw [if_pos hlo, if_neg (by omega)]
  · rw [if_neg hlo, if_pos (by omega)]

theorem canonical_v4 :
    parseCanonicalIp text = some (.v4 octets) ↔ parseIpv4 text = some octets := by
  unfold parseCanonicalIp
  cases parseIpv4 text with
  | some => simp
  | none => cases parseIpv6 text <;> simp

/-- An accepted text is the one the groups are written as. -/
theorem canonical_v6 : parseCanonicalIp text = some (.v6 groups) ↔
    (groups.length = 8 ∧ ∀ g ∈ groups, g < 65536) ∧ formatIpv6 groups = text := by
  unfold parseCanonicalIp
  constructor
  · intro h
    split at h
    next => cases h
    split at h
    next hp =>
      split_ifs at h with htx
      cases h
      obtain ⟨-, ok, -⟩ := parseIpv6_iff.mp hp
      exact ⟨ok, htx⟩
    next => cases h
  · rintro ⟨ok, rfl⟩
    obtain ⟨hc, -, hpa⟩ := parse_format ok
    have hfo : parseIpv4 (formatIpv6 groups) = none := by
      refine Option.eq_none_iff_forall_ne_some.mpr fun octets h => ?_
      obtain ⟨_, h⟩ := parseIpv4_iff.mp h
      rw [hpa] at h
      cases h
    simp [hfo, parseIpv6_iff.mpr ⟨hc, ok, hpa⟩]

/-- **What the node takes for an address of a fabric, the server takes for one.** -/
theorem isFabricIp_of_node (h : Node.isFabricIp text = true) : isFabricIp text = true := by
  unfold Node.isFabricIp at h
  unfold isFabricIp
  split at h
  next octets ok hpa =>
    rw [Bool.and_eq_true, Bool.and_eq_true] at h
    rw [canonical_v4.mpr (parseIpv4_iff.mpr ⟨ok, hpa⟩)]
    exact Bool.and_eq_true_iff.mpr ⟨h.1.2, h.2⟩
  next segments ok hpa =>
    rw [Bool.and_eq_true, Bool.and_eq_true, decide_eq_true_iff] at h
    obtain ⟨⟨ht, hd⟩, he⟩ := h
    have hp : segments.take 6 ≠ [0, 0, 0, 0, 0, 0xffff] := by
      intro hm
      have hno : '.' ∉ text := by simpa using ht
      apply hno
      rw [← hd, Node.IpAddr.display, Node.displayV6, if_pos hm]
      match segments, ok.1, hm with
      | [a, b, c, d, e, f, g, h], _, _ => simp [intercalate_cons_cons]
    have hf := (formatIpv6_eq ok.1 hp).symm.trans hd
    rw [canonical_v6.mpr ⟨ok, hf⟩]
    exact he
  next => cases h

/-- The node accepts what the server accepts. -/
theorem node_isFabricIp (h : isFabricIp text = true) : Node.isFabricIp text = true := by
  unfold isFabricIp at h
  unfold Node.isFabricIp
  split at h
  next => cases h
  next octets hc =>
    have hfo := canonical_v4.mp hc
    obtain ⟨ok, hpa⟩ := parseIpv4_iff.mp hfo
    obtain ⟨-, ht, rfl⟩ := parseIpv4_some.mp hfo
    have hwr : ((text.splitOn '.').map (readNumber 10)).map (Nat.toDigits 10) =
        text.splitOn '.' := by
      rw [map_map]
      conv_rhs => rw [← map_id (text.splitOn '.')]
      exact map_congr_left fun p hpt => toDigits_readNumber (ht p hpt).1
    rw [hpa]
    simp only [Node.IpAddr.display, hwr, intercalate_splitOn]
    simpa using h
  next groups hc =>
  obtain ⟨ok, rfl⟩ := canonical_v6.mp hc
  obtain ⟨hh, -, hpa⟩ := parse_format ok
  have hp : groups.take 6 ≠ [0, 0, 0, 0, 0, 0xffff] := by
    intro hm
    match groups, ok.1, hm with
    | [a, b, c, d, e, f, g, h], _, hm => simp_all [embedsV4]
  rw [hpa]
  simp only [Node.IpAddr.display, formatIpv6_eq ok.1 hp]
  simpa [hh.dot] using h

/-- **Each address has one text**, and the server and the node agree on which of them are
addresses of a fabric. -/
theorem canonicalIp_unique (text : List Char) :
    (∀ groups, parseCanonicalIp text = some (.v6 groups) ↔
      (groups.length = 8 ∧ ∀ group ∈ groups, group < 65536) ∧ formatIpv6 groups = text) ∧
    isFabricIp text = Node.isFabricIp text :=
  ⟨fun _ => canonical_v6, Bool.eq_iff_iff.mpr ⟨node_isFabricIp, isFabricIp_of_node⟩⟩

end

end ModelProxy.Ip
