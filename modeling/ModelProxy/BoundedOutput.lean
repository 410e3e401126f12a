import Mathlib.Data.List.Find
import ModelProxy.Redaction
import ModelProxy.RollingTail

/-! # No credential survives the bounded view

Cleaning goes from left to right, and a tail starts on a boundary, so that the cleaned head
and tail are a start and an end of the cleaned stream: but for the replacement of a
character the head's end cuts, and for a byte order mark at the tail's start, which a
decoder takes for its own.
-/
namespace ModelProxy.CommandOutput

open Terminal TerminalByteState Transducer

/-! ## Cleaning in two pieces -/

/-- The text the parser keeps of bytes that end the stream. -/
def textFrom (s : TerminalByteState) (bytes : List UInt8) : List Char :=
  let fed := Transducer.run TerminalByteState.decode s bytes
  fed.2 ++ fed.1.finishClean.2

theorem textFrom_append (s : TerminalByteState) (a b : List UInt8) :
    textFrom s (a ++ b) = (run decode s a).2 ++
      textFrom (run decode s a).1 b := by
  unfold textFrom
  rw [run_append, List.append_assoc]

/-- The cleaned text, by the node's parser. -/
theorem cleaned_eq (stream : List UInt8) :
    cleaned (decodeLossy stream) = textUnits (textFrom .default stream) := by
  rw [cleaned_visible, ← cleanBytes_visible]
  rfl

/-- What ends unfinished is one replacement or nothing. -/
theorem finishClean_replaces (s : TerminalByteState) :
    textUnits s.finishClean.2 = [] ∨ textUnits s.finishClean.2 = [0xfffd] := by
  unfold finishClean
  cases s.utf8 with
  | idle => exact .inl rfl
  | partialChar rem codePoint lower upper =>
    unfold code
    simp only
    split
    · exact .inl rfl
    · split
      · exact .inr rfl
      · exact .inl rfl

/-- How much of the cleaned stream its first `p` bytes make. -/
def cleanedUpTo (stream : List UInt8) (p : ℕ) : ℕ :=
  (textUnits (Transducer.run TerminalByteState.decode .default (stream.take p)).2).length

variable {p : ℕ} {stream : List UInt8} {text : List ℕ} {code : ℕ}

theorem cleanedUpTo_mono (stream : List UInt8) {q : ℕ} (h : p ≤ q) :
    cleanedUpTo stream p ≤ cleanedUpTo stream q := by
  unfold cleanedUpTo
  rw [← Nat.sub_add_cancel h, Nat.add_comm, List.take_add, run_append, textUnits_append,
    List.length_append]
  omega

theorem cleaned_split (stream : List UInt8) (p : ℕ) :
    ∃ rest, cleaned (decodeLossy stream) =
        textUnits (run decode .default (stream.take p)).2 ++ rest ∧
      rest = textUnits (textFrom (run decode .default (stream.take p)).1 (stream.drop p)) := by
  refine ⟨_, ?_, rfl⟩
  rw [cleaned_eq, ← textUnits_append, ← textFrom_append, List.take_append_drop]

/-- A cleaned head is a start of the cleaned stream, then perhaps a replacement. -/
theorem cleaned_take (stream : List UInt8) (p : ℕ) :
    ∃ fill, (fill = [] ∨ fill = [0xfffd]) ∧ cleaned (decodeLossy (stream.take p)) =
      (cleaned (decodeLossy stream)).take (cleanedUpTo stream p) ++ fill := by
  refine ⟨_, finishClean_replaces (run decode .default (stream.take p)).1, ?_⟩
  obtain ⟨rest, hs, -⟩ := cleaned_split stream p
  rw [hs, cleaned_eq]
  unfold cleanedUpTo
  rw [List.take_left, ← textUnits_append]
  rfl

theorem foldl_feed (bs : List UInt8) (s : TerminalByteState) :
    bs.foldl feed s = (run decode s bs).1 := by
  induction bs generalizing s with
  | nil => rfl
  | cons b bs ih => rw [List.foldl_cons, ih, run_cons]; rfl

/-- Once something was decoded, nothing is taken for a byte order mark. -/
theorem textFrom_later (bs : List UInt8) :
    textFrom ⟨.ground, true, .idle⟩ bs = visible .ground (lossyCodes bs) := by
  have hr := reads_run (s := ⟨.ground, true, .idle⟩) Stands.idle bs
  unfold textFrom lossyCodes
  rw [← run_readItem]
  unfold Utf8.decode
  dsimp only
  rw [run_append, finishClean_text hr.stands, hr.reader, hr.text]
  rfl

/-- A byte that leaves no character open has decoded something. -/
theorem decode_decoded (s : TerminalByteState) (b : UInt8)
    (hid : (s.decode b).1.utf8 = .idle) : (s.decode b).1.decodedAny = true := by
  unfold decode decodeIdle code at hid ⊢
  grind

/-- Behind some bytes, a boundary is the start state but for what was decoded. -/
theorem run_boundary (hbd : (after feed .default stream p).atBoundary = true)
    (hso : stream.take p ≠ []) :
    (run decode .default (stream.take p)).1 = ⟨.ground, true, .idle⟩ := by
  unfold after at hbd
  rw [foldl_feed, atBoundary, decide_eq_true_eq] at hbd
  obtain ⟨hg, hid⟩ := hbd
  have hd : (run decode .default (stream.take p)).1.decodedAny = true := by
    obtain hn | ⟨bs, byte, hla⟩ := List.eq_nil_or_concat (stream.take p)
    · exact absurd hn hso
    · rw [hla, List.concat_eq_append, run_append] at hid ⊢
      exact decode_decoded _ byte hid
  rw [← hg, ← hd, ← hid]

/-- The byte order mark that a tail cleaned on its own loses. -/
def lostMark (stream : List UInt8) (p : ℕ) : List ℕ :=
  if stream.take p ≠ [] ∧ (lossyCodes (stream.drop p)).head? = some 0xfeff then [0xfeff] else []

theorem visible_byteOrderMark (codes : List ℕ) : textUnits (visible .ground codes) =
    (if codes.head? = some 0xfeff then [0xfeff] else []) ++
      textUnits (visible .ground (withoutByteOrderMark codes)) := by
  cases codes with
  | nil => rfl
  | cons code codes =>
    simp only [withoutByteOrderMark, List.head?_cons, Option.some_inj]
    split
    next hmk =>
      subst hmk
      rfl
    next => rfl

/-- On a boundary a stream is cleaned piece by piece, but for a byte order mark. -/
theorem cleaned_boundary (hbd : (after feed .default stream p).atBoundary = true) :
    cleaned (decodeLossy stream) = cleaned (decodeLossy (stream.take p)) ++
        (lostMark stream p ++ cleaned (decodeLossy (stream.drop p))) ∧
      cleanedUpTo stream p = (cleaned (decodeLossy (stream.take p))).length := by
  unfold lostMark cleanedUpTo
  rw [cleaned_eq (stream.take p)]
  by_cases hn : stream.take p = []
  · have ha := List.take_append_drop p stream
    rw [hn, List.nil_append] at ha
    rw [hn, ha]
    exact ⟨rfl, rfl⟩
  · obtain ⟨rest, hs, hr⟩ := cleaned_split stream p
    have hru := run_boundary hbd hn
    have htk : textFrom .default (stream.take p) =
        (run decode .default (stream.take p)).2 := by
      simp only [textFrom, hru]
      exact List.append_nil _
    rw [hru, textFrom_later, visible_byteOrderMark, ← cleaned_visible] at hr
    rw [hs, hr, htk]
    simp only [ne_eq, hn, not_false_eq_true, true_and]

/-- A cleaned tail is an end of the cleaned stream. -/
theorem cleaned_drop (hbd : (after feed .default stream p).atBoundary = true) :
    ∃ m, cleanedUpTo stream p ≤ m ∧
      cleaned (decodeLossy (stream.drop p)) = (cleaned (decodeLossy stream)).drop m := by
  obtain ⟨hs, hl⟩ := cleaned_boundary hbd
  refine ⟨_, Nat.le_add_right _ (lostMark stream p).length, ?_⟩
  rw [hs, hl, ← List.drop_drop, List.drop_left, List.drop_left]

/-- **A tail parses like the whole stream** exactly when no byte order mark opens it: behind
other bytes a mark is text, at a tail's start the decoder drops it. -/
theorem cleaned_tail_iff (hboundary : after serverFeed boundary stream p = boundary) :
    cleaned (decodeLossy stream) =
        cleaned (decodeLossy (stream.take p)) ++ cleaned (decodeLossy (stream.drop p)) ↔
      stream.take p = [] ∨ (lossyCodes (stream.drop p)).head? ≠ some 0xfeff := by
  have hn := (onBoundary_after stream p).trans (decide_eq_true hboundary)
  rw [(cleaned_boundary hn).1, List.append_cancel_left_eq, List.append_left_eq_self, lostMark]
  split <;> grind

/-- A tail behind a whole escape. -/
theorem cleaned_tail_iff_escape :
    cleaned (decodeLossy [0x1b, 0x5b, 0x6d, 0x61]) = [0x61] ∧
      cleaned (decodeLossy [0x61]) = [0x61] := by
  have hb : after serverFeed boundary [0x1b, 0x5b, 0x6d, 0x61] 3 = boundary :=
    of_decide_eq_true ((onBoundary_after _ _).symm.trans (by decide))
  have ht := (cleaned_tail_iff hb).mpr (.inr (by decide))
  exact ⟨ht.trans (by decide), by decide⟩

/-- The mark behind the first byte is in the stream's text and not in its tail's. -/
theorem cleaned_tail_loses_mark :
    after serverFeed boundary [0x61, 0xef, 0xbb, 0xbf, 0x62] 1 = boundary ∧
      cleaned (decodeLossy [0x61, 0xef, 0xbb, 0xbf, 0x62]) = [0x61, 0xfeff, 0x62] ∧
      cleaned (decodeLossy [0x61]) = [0x61] ∧
      cleaned (decodeLossy [0xef, 0xbb, 0xbf, 0x62]) = [0x62] :=
  ⟨of_decide_eq_true ((onBoundary_after _ _).symm.trans (by decide)), by decide, by decide,
    by decide⟩

/-! ## Redacting the two pieces -/

theorem dropWhile_append_other (h : credentialChar code = false) :
    (text ++ [code]).dropWhile credentialChar = text.dropWhile credentialChar ++ [code] := by
  induction text with
  | nil => simp [h]
  | cons first text ih =>
    rw [List.cons_append, List.dropWhile_cons, List.dropWhile_cons]
    split
    · exact ih
    · rfl

theorem prefix_append_other {w : List ℕ} (hwd : ∀ c ∈ w, credentialChar c = true)
    (h : credentialChar code = false) : w <+: text ++ [code] ↔ w <+: text := by
  refine ⟨fun hb => ?_, fun hb => hb.trans (List.prefix_append _ _)⟩
  rcases List.prefix_concat_iff.mp hb with heq | hb
  · have := hwd code (heq ▸ by simp)
    rw [h] at this
    exact Bool.noConfusion this
  · exact hb

theorem starts_append_other (h : credentialChar code = false) :
    Starts (text ++ [code]) ↔ Starts text := by
  refine exists_congr fun start => and_congr_right fun hst => exists_congr fun c =>
    and_congr_right fun hc => prefix_append_other (word_chars hst hc) h

theorem replaceCredentials_append (h : credentialChar code = false) :
    replaceCredentials (text ++ [code]) 0 = replaceCredentials text 0 ++ [code] := by
  induction hl : text.length using Nat.strong_induction_on generalizing text with
  | _ length ih =>
    by_cases hs : Starts text
    · obtain ⟨start, -, -, hlt⟩ := starts_iff.mp hs
      have hne := List.length_pos_of_ne_nil hs.ne_nil
      rw [replaceCredentials_starts ((starts_append_other h).mpr hs),
        replaceCredentials_starts hs, dropWhile_append_other h, List.append_assoc,
        ih _ (by rw [← drop_runLength, List.length_drop]; omega) rfl]
    · have hn := mt (starts_append_other h).mp hs
      cases text with
      | nil => rw [List.nil_append] at hn ⊢; exact replaceCredentials_cons hn
      | cons first text =>
        rw [List.cons_append] at hn ⊢
        rw [replaceCredentials_cons hn, replaceCredentials_cons hs, ih _ (by simp [← hl]) rfl]
        rfl

/-- A last character that belongs to no credential is left alone. -/
theorem redact_append {fill : List ℕ} (hfl : fill = [] ∨ fill = [0xfffd]) :
    redactCredentialSubstrings (text ++ fill) = redactCredentialSubstrings text ++ fill := by
  rcases hfl with rfl | rfl
  · simp
  have h : credentialChar 0xfffd = false := by decide
  unfold redactCredentialSubstrings
  rw [replaceCredentials_append h]
  generalize replaceCredentials text 0 = replaced
  have hsm : ∀ start ∈ credentialPrefixes,
      start.isPrefixOf (replaced ++ [0xfffd]) = start.isPrefixOf replaced := fun start hst => by
    rw [Bool.eq_iff_iff, List.isPrefixOf_iff_prefix, List.isPrefixOf_iff_prefix]
    exact prefix_append_other (prefix_chars start hst) h
  have hfn : credentialPrefixes.find? (fun start => start.isPrefixOf (replaced ++ [0xfffd])) =
      credentialPrefixes.find? fun start => start.isPrefixOf replaced := List.find?_congr hsm
  have hg : credentialPrefixes.length = 4 + 1 := rfl
  rw [hg, neutralizeLeadingPrefixes, neutralizeLeadingPrefixes, hfn]
  cases hst : credentialPrefixes.find? fun start => start.isPrefixOf replaced with
  | none => rfl
  | some start =>
    have hb : start.isPrefixOf replaced = true :=
      List.find?_some (p := fun start : List ℕ => start.isPrefixOf replaced) hst
    have hle := (List.isPrefixOf_iff_prefix.mp hb).length_le
    simp only
    rw [neutralize_marker, neutralize_marker, List.drop_append_of_le_length hle, List.append_assoc]

theorem credentialFree_ellipsis {pre behind : List ℕ} (hb : CredentialFree pre)
    (hh : CredentialFree behind) : CredentialFree (pre ++ ellipsis ++ behind) := by
  have he : ellipsis = [0x0a, 0x2026, 0x0a] := by decide
  have hla := credentialFree_nil.join 0x0a rfl hh
  have hm := credentialFree_nil.join 0x2026 rfl hla
  have ha := hb.join 0x0a rfl hm
  rw [he]
  simpa using ha

theorem cleanedUpTo_le (stream : List UInt8) (p : ℕ) :
    cleanedUpTo stream p ≤ (cleaned (decodeLossy stream)).length := by
  obtain ⟨rest, hs, -⟩ := cleaned_split stream p
  rw [hs, List.length_append]
  exact Nat.le_add_right _ _

/-- The redacted head shows a start of the cleaned stream. -/
theorem shown_head (stream : List UInt8) (p : ℕ) :
    ∃ before fill, cleanDecoded (stream.take p) false = before ++ fill ∧
      (fill = [] ∨ fill = [0xfffd]) ∧
      Shown (cleaned (decodeLossy stream)) 0 (cleanedUpTo stream p) before := by
  obtain ⟨fill, hfl, htk⟩ := cleaned_take stream p
  refine ⟨_, fill, ?_, hfl, shown_redact (Nat.zero_le _) (cleanedUpTo_le stream p) Clear.start⟩
  unfold cleanDecoded cleanText
  rw [if_neg (by simp), htk, redact_append hfl, List.drop_zero]

/-- Behind its leading run, the redacted tail shows an end of the cleaned stream. -/
theorem shown_tail (hbd : (after feed .default stream p).atBoundary = true) :
    ∃ j, cleanedUpTo stream p ≤ j ∧
      Shown (cleaned (decodeLossy stream)) j (cleaned (decodeLossy stream)).length
        (cleanDecoded (stream.drop p) true) := by
  obtain ⟨m, hm, hdr⟩ := cleaned_drop hbd
  have he := cleanedUpTo_le stream p
  unfold cleanDecoded cleanText
  rw [if_pos rfl, hdr, dropLeadingTokenRun, ← drop_runLength, List.drop_drop]
  generalize cleaned (decodeLossy stream) = clean at he ⊢
  rcases le_total (m + runLength (clean.drop m)) clean.length with hin | ho
  · refine ⟨m + runLength (clean.drop m), by omega, ?_⟩
    have hsh := shown_redact hin (le_refl _) (Clear.run m)
    rwa [List.take_length] at hsh
  · refine ⟨clean.length, he, ?_⟩
    rw [List.drop_eq_nil_of_le ho]
    exact .done _

/-- A covered stream is put together again from its head and its tail. -/
theorem covered_stream {cap : ℕ}
    (hv : stream.length ≤ (stream.take cap).length + (stream.drop p).length) :
    stream.take cap ++
        (stream.drop p).drop ((stream.take cap).length + (stream.drop p).length - stream.length) =
      stream := by
  rw [List.length_take, List.length_drop] at hv ⊢
  rw [List.drop_drop]
  rcases le_total cap stream.length with hc | hc
  · rcases le_total p stream.length with hp | hp
    · have hat : p + (min cap stream.length + (stream.length - p) - stream.length) = cap := by omega
      rw [hat, List.take_append_drop]
    · have ha : cap = stream.length := by omega
      rw [ha, List.take_length, List.drop_eq_nil_of_le (by omega), List.append_nil]
  · rw [List.take_of_length_le hc, List.drop_eq_nil_of_le (by omega), List.append_nil]

/-- What a bounded view shows of a stream with the cleaned text `clean`. -/
structure HidesCredentials (clean : List ℕ) (view : CliStreamText) : Prop where
  free : CredentialFree view.text
  /-- A covered stream: all of it, redacted. -/
  covered : view.truncated = false →
    view.text = redactCredentialSubstrings clean ∧ Shown clean 0 clean.length view.text
  /-- A cut one: a start and an end of it, and no character of a credential's body. -/
  cut : view.truncated = true → ∃ i j before fill behind,
    view.text = before ++ fill ++ ellipsis ++ behind ∧ (fill = [] ∨ fill = [0xfffd]) ∧
      i ≤ j ∧ Shown clean 0 i before ∧ Shown clean j clean.length behind

/-- The shown head and tail hide every credential. -/
theorem view_hides {tail : List UInt8} {tailCap : ℕ} (he : ℕ) (hs : TailOf tailCap stream tail) :
    HidesCredentials (cleaned (decodeLossy stream))
      (formatBoundedStream ⟨stream.take he, tail, stream.length⟩) := by
  unfold formatBoundedStream
  by_cases hc : (stream.take he).length + tail.length < stream.length
  · rw [if_pos hc]
    refine ⟨credentialFree_ellipsis (credentialFree_redact _) (credentialFree_redact _),
      fun h => absurd h (by simp), fun _ => ?_⟩
    obtain ⟨before, fill, hh, hfl, hb⟩ := shown_head stream he
    rcases hs with ⟨p, hp, rfl⟩ | ⟨-, rfl⟩
    · obtain ⟨j, hj, hbe⟩ := shown_tail hp.1.2.2
      have hle : he ≤ p := by
        rw [List.length_take, List.length_drop] at hc
        omega
      exact ⟨_, j, before, fill, _, by rw [hh], hfl,
        (cleanedUpTo_mono stream hle).trans hj, hb, hbe⟩
    · -- no boundary in reach: the tail is empty and shows nothing
      exact ⟨_, _, before, fill, [], by rw [hh]; rfl, hfl, cleanedUpTo_le stream he, hb, .done _⟩
  · rw [if_neg hc]
    have hw : stream.take he ++
        tail.drop ((stream.take he).length + tail.length - stream.length) = stream := by
      rcases hs with ⟨p, -, rfl⟩ | ⟨-, rfl⟩
      · exact covered_stream (Nat.le_of_not_lt hc)
      · have hn : stream.drop stream.length = [] := List.drop_length
        rw [← hn] at hc ⊢
        exact covered_stream (Nat.le_of_not_lt hc)
    simp only [hw]
    refine ⟨credentialFree_redact _, fun _ => ⟨rfl, ?_⟩, fun h => absurd h (by simp)⟩
    have hsh : Shown (cleaned (decodeLossy stream)) 0 _ _ :=
      shown_redact (Nat.zero_le _) (le_refl _) Clear.start
    rwa [List.take_length, List.drop_zero] at hsh

/-- **No credential survives bounded output**, whatever the caps and the chunks the tail was
made from. -/
theorem formatBoundedStream_hides (headCap tailCap : ℕ) (chunks : List (List UInt8)) :
    HidesCredentials (cleaned (decodeLossy chunks.flatten))
      (formatBoundedStream ⟨chunks.flatten.take headCap, (serverTail tailCap chunks).1,
        chunks.flatten.length⟩) :=
  view_hides headCap (serverTail_suffix tailCap chunks)

end ModelProxy.CommandOutput
