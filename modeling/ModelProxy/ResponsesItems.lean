import ModelProxy.CheckedRequests

/-! # Rendered Responses items are read back

Each item the Responses renderer writes is parsed to what it was written from.  What is lost is
the error flag of a tool result, and the position of a turn in its first source.
-/
namespace ModelProxy.Protocols

open ModelProxy.Js ImageSource List
open ModelProxy.Js.Json (isStr obj str)

/-! ## Images -/

theorem mediaType_name (type : MediaType) : mediaType (js type.name) = some type := by
  cases type <;> simp [mediaType, MediaType.name]

theorem imageDetail_name (detail : ImageDetail) : imageDetail (str detail.name) = some detail := by
  cases detail <;> simp [imageDetail, ImageDetail.name]

/-- The name of a media type holds no separator of a data URL. -/
theorem mediaType_plain (type : MediaType) :
    ∀ u ∈ js type.name, (!(u == unit ';' || u == unit ',')) = true := by
  exact all_eq_true.mp (by cases type <;> decide)

theorem dataUrl_address (type : MediaType) (data : ImageData) :
    dataUrl (address (.base64 type data)) = some (js type.name, data.1) := by
  have hs : (address (.base64 type data)).drop 5 =
      js type.name ++ (js ";base64," ++ data.1) := by
    simp only [address, append_assoc]
    rfl
  have hty : (js type.name ++ (js ";base64," ++ data.1)).takeWhile
      (fun u => !(u == unit ';' || u == unit ',')) = js type.name := by
    rw [takeWhile_append_of_pos (mediaType_plain type)]
    exact append_nil _
  have hr : (js type.name ++ (js ";base64," ++ data.1)).dropWhile
      (fun u => !(u == unit ';' || u == unit ',')) = js ";base64," ++ data.1 := by
    rw [dropWhile_append_of_pos (mediaType_plain type)]
    rfl
  have hn : (js type.name).isEmpty = false := by cases type <;> rfl
  have hp : paddedBase64 data.1 = true := data.2.2.1
  have hdt : (js "data:").isPrefixOf (address (.base64 type data)) = true := by
    rfl
  have hdr : (js ";base64," ++ data.1).drop 8 = data.1 := rfl
  have hmk : (js ";base64,").isPrefixOf (js ";base64," ++ data.1) = true := rfl
  rw [dataUrl, if_pos hdt]
  simp only [hs, hty, hr, hn, hdr, hmk, hp, Bool.not_false, Bool.and_self, if_true]

/-- The detail an image is given with. -/
def ImageSource.detail? : ImageSource → Option Json
  | url _ (some detail) => some (str detail.name)
  | _ => none

/-- An image's address reads back. -/
theorem parseImageUrl_address (source : ImageSource) (param : JsString) :
    parseImageUrl (some (.string source.address)) param source.detail? = .ok source := by
  cases source with
  | url address detail =>
    have hne : address.1 ≠ [] := by
      intro hn
      have hp := address.2
      rw [hn] at hp
      cases hp
    have hd : parseDetail param (detail? (.url address detail)) =
        .ok detail := by
      cases detail with
      | none => rfl
      | some detail => simp only [detail?, parseDetail, imageDetail_name]
    rw [parseImageUrl, ImageSource.address, string_ok hne, ok_bind, hd, ok_bind, dif_pos address.2]
  | base64 type data =>
    have hne : address (.base64 type data) ≠ [] := by
      exact cons_ne_nil _ _
    have hh : ¬(js "https://").isPrefixOf (address (.base64 type data)) = true := by
      exact Bool.false_ne_true
    have hdt : parseDataUrl (address (.base64 type data)) param =
        .ok (.base64 type data) := by
      rw [parseDataUrl, dataUrl_address, Option.bind_some]
      simp only [mediaType_name, Option.map_some]
      exact dif_pos data.2
    rw [parseImageUrl, string_ok hne, ok_bind]
    show ((Except.ok none : Adapted (Option ImageDetail)) >>= _) = _
    rw [ok_bind, dif_neg hh]
    exact hdt

theorem lookup_detailFields (src : ImageSource) (key : String) :
    src.detailFields.lookup key = if key = "detail" then src.detail? else none := by
  match src with
  | .url _ (some detail) => simp [detailFields, detail?, lookup_field]
  | .url _ none | .base64 _ _ => simp [detailFields, detail?]

theorem detailFields_keys (src : ImageSource) :
    ∀ f ∈ src.detailFields, f.1 = "detail" := by
  match src with
  | .url _ (some _) | .url _ none | .base64 _ _ => simp [detailFields]

/-! ## Content -/

namespace Responses

/-- The item of a part that is content. -/
def contentItem (role : MessageRole) : Part → Json
  | .text text => textItem role text
  | .image source => imageItem source
  | _ => .null

/-- A text that is not empty, or an image. -/
def Readable : Part → Prop
  | .text text => text ≠ []
  | .image _ => True
  | _ => False

/-- A content item reads back. -/
theorem contentBlock_item (role : MessageRole) {part : Part} (h : Readable part)
    (path : JsString) : contentBlock path (contentItem role part) = .ok part := by
  cases part with
  | text text =>
    have ha : ∀ f ∈ [("type", str (textType role)), ("text", Json.string text)],
        f.1 ∈ ["type", "text"] := by
      simp
    have hty : (isStr (some (str (textType role))) "input_text" ||
        isStr (some (str (textType role))) "output_text") = true := by
      cases role <;> simp [textType]
    rw [contentItem, contentBlock, textItem, object_obj, ok_bind]
    simp only [get_map, lookup_field, reduceIte, String.reduceEq]
    rw [if_pos hty, rejectUnknown_map ha, ok_bind, string_ok h]
    rfl
  | image src =>
    have ha : ∀ f ∈ [("type", str "input_image"),
        ("image_url", Json.string src.address)] ++ src.detailFields,
        f.1 ∈ ["type", "image_url", "detail"] := by
      intro f hf
      rcases mem_append.mp hf with hf | hf
      · simp only [mem_cons, not_mem_nil, or_false] at hf
        rcases hf with rfl | rfl <;> simp
      · simp [detailFields_keys src f hf]
    rw [contentItem, contentBlock, imageItem, object_obj, ok_bind]
    simp only [get_map, cons_append, nil_append, lookup_field, lookup_detailFields,
      reduceIte, String.reduceEq]
    have hu := rejectUnknown_map ha path
    simp only [cons_append, nil_append] at hu
    rw [hu, ok_bind, parseImageUrl_address]
    rfl
  | toolCall id name args => cases h
  | toolResult id txt isError => cases h

/-! ## Items -/

theorem instructionRole_name (role : InstructionRole) :
    instructionRole (some (str role.name)) = some role := by
  cases role <;> simp [instructionRole, InstructionRole.name]

theorem instructionRole_message (role : MessageRole) :
    instructionRole (some (str role.name)) = none := by
  cases role <;> simp [instructionRole, InstructionRole.name, MessageRole.name]

theorem messageRole_name (role : MessageRole) : messageRole (some (str role.name)) = some role := by
  cases role <;> simp [messageRole, MessageRole.name]

theorem textBlock_item {text : JsString} (h : text ≠ []) (path : JsString) :
    textBlock ["input_text", "output_text"] path
      (obj [("type", str "input_text"), ("text", .string text)]) = .ok text := by
  have ha : ∀ f ∈ [("type", str "input_text"), ("text", Json.string text)],
      f.1 ∈ ["type", "text"] := by
    simp
  rw [textBlock, object_obj, ok_bind, rejectUnknown_map ha, ok_bind]
  simp only [get_map, lookup_field, reduceIte, String.reduceEq]
  rw [refuseIf_ok (by simp), ok_bind, string_ok h]
  rfl

/-- A message item, whatever its content is read as. -/
theorem parseEntry_message (i : ℕ) (role : String) (content : Json) :
    parseEntry i (obj [("type", str "message"), ("role", str role), ("content", content)]) =
      match instructionRole (some (str role)) with
      | some role => do
          let content ← responseInstructionText (some content) (entryPath "input" i ++ ".content")
          return .instruction ⟨role, content, i⟩
      | none =>
        match messageRole (some (str role)) with
        | some role => do
            let content ← responseText (some content) (entryPath "input" i ++ ".content")
            refuseIf (decide (role = .assistant) && content.any Part.isImage)
              (unsupported (entryPath "input" i ++ ".content")
                "assistant images are not in the common subset")
            return .message ⟨role, content, i⟩
        | none => .error (invalid (entryPath "input" i ++ ".role") "is unsupported") := by
  have ha : ∀ f ∈ [("type", str "message"), ("role", str role), ("content", content)],
      f.1 ∈ ["type", "id", "role", "content", "status"] := by
    simp
  have hm : isMessageItem (map (fun f => (js f.1, f.2))
      [("type", str "message"), ("role", str role), ("content", content)]) = true := by
    simp only [isMessageItem, get_map, lookup_field, reduceIte, String.reduceEq]
    simp
  rw [parseEntry, object_obj, ok_bind, parseItem, if_pos hm, messageItem,
    rejectUnknown_map ha, ok_bind]
  simp only [instruction, turn, get_map, lookup_field, reduceIte, String.reduceEq]
  rfl

/-- An instruction's role and texts. -/
def roleTexts (instruction : CanonicalInstruction) : InstructionRole × List JsString :=
  (instruction.role, instruction.content)

end Responses

/-- The parts of a message, each with the message's role. -/
def CanonicalMessage.pairs (message : CanonicalMessage) : List (MessageRole × Part) :=
  message.content.map fun part => (message.role, part)

variable {instrs : List (InstructionRole × List JsString)} {role : MessageRole}

namespace Responses

/-- Items that are read, wherever they stand, as these instructions and parts. -/
def Reads (items : List Json) (instructions : List (InstructionRole × List JsString))
    (pairs : List (MessageRole × Part)) : Prop :=
  ∀ i, ∃ turns, mapEntries parseEntry i items = .ok turns ∧
    (turns.filterMap Turn.instruction?).map roleTexts = instructions ∧
    (turns.filterMap Turn.message?).flatMap CanonicalMessage.pairs = pairs

theorem Reads.nil : Reads [] [] [] := fun _ => ⟨[], rfl, rfl, rfl⟩

theorem Reads.append {xs xs' : List Json} {instrs' : List (InstructionRole × List JsString)}
    {pairs pairs' : List (MessageRole × Part)} (h : Reads xs instrs pairs)
    (h' : Reads xs' instrs' pairs') : Reads (xs ++ xs') (instrs ++ instrs') (pairs ++ pairs') := by
  intro i
  obtain ⟨n, ht, hi, hp⟩ := h i
  obtain ⟨n', ht', hi', hp'⟩ := h' (i + xs.length)
  refine ⟨n ++ n', mapEntries_append ht ht', ?_, ?_⟩
  · rw [filterMap_append, map_append, hi, hi']
  · rw [filterMap_append, flatMap_append, hp, hp']

/-- One item that is read as a turn. -/
theorem Reads.single {item : Json} {pairs : List (MessageRole × Part)}
    (h : ∀ i, ∃ t, parseEntry i item = .ok t ∧
      ([t].filterMap Turn.instruction?).map roleTexts = instrs ∧
      ([t].filterMap Turn.message?).flatMap CanonicalMessage.pairs = pairs) :
    Reads [item] instrs pairs := by
  intro i
  obtain ⟨t, ht, hi, hp⟩ := h i
  exact ⟨[t], mapEntries_cons_eq_ok.mpr ⟨t, [], ht, rfl, rfl⟩, hi, hp⟩

/-- An instruction reads back. -/
theorem reads_instruction {instr : CanonicalInstruction} (h : ∀ text ∈ instr.content, text ≠ []) :
    Reads [instructionJson instr] [roleTexts instr] [] := by
  apply Reads.single
  intro i
  refine ⟨.instruction ⟨instr.role, instr.content, i⟩, ?_, rfl, rfl⟩
  have hcn : responseInstructionText (some (.array (instr.content.map fun text =>
      obj [("type", str "input_text"), ("text", .string text)])))
      (entryPath "input" i ++ ".content") = .ok (instr.content.map id) := by
    apply mapEntries_map
    intro j text htx
    exact textBlock_item (h text htx) _
  rw [map_id] at hcn
  rw [instructionJson, parseEntry_message, instructionRole_name]
  simp only [hcn]
  rfl

/-- What is flushed is read as the parts that were collected. -/
theorem reads_flush {parts : List Part} (h : ∀ p ∈ parts, Readable p)
    (hft : ∀ p ∈ parts, p.fits role = true) :
    Reads (flushContent role (parts.map (contentItem role))) []
      (parts.map fun p => (role, p)) := by
  cases parts with
  | nil => exact Reads.nil
  | cons p rest =>
    show Reads [obj [("type", str "message"), ("role", str role.name),
      ("content", .array ((p :: rest).map (contentItem role)))]] [] _
    generalize p :: rest = parts at h hft
    apply Reads.single
    intro i
    refine ⟨.message ⟨role, parts, i⟩, ?_, rfl, ?_⟩
    · have hcn : responseText (some (.array (parts.map (contentItem role))))
          (entryPath "input" i ++ ".content") = .ok (parts.map id) := by
        apply mapEntries_map
        intro j p hpt
        exact contentBlock_item role (h p hpt) _
      rw [map_id] at hcn
      have hi : (decide (role = .assistant) && parts.any Part.isImage) = false := by
        cases role with
        | user => rfl
        | assistant =>
          simp only [decide_true, Bool.true_and, any_eq_false]
          intro p hpt hi
          have hf := hft p hpt
          cases p with
          | image src => cases hf
          | _ => cases hi
      rw [parseEntry_message, instructionRole_message, messageRole_name]
      simp only [hcn, ok_bind]
      rw [refuseIf_ok hi]
      rfl
    · exact append_nil _

/-- A tool call reads back. -/
theorem reads_call (id name args : NonEmpty) :
    Reads [callItem id name args] [] [(.assistant, .toolCall id name args)] := by
  apply Reads.single
  intro i
  refine ⟨.message ⟨.assistant, [.toolCall id name args], i⟩, ?_, rfl, rfl⟩
  have ha : ∀ f ∈ [("type", str "function_call"), ("call_id", Json.string id.1),
      ("name", Json.string name.1), ("arguments", Json.string args.1)],
      f.1 ∈ ["type", "call_id", "name", "arguments"] := by
    simp
  rw [callItem, parseEntry, object_obj, ok_bind, parseItem, if_neg, if_pos, functionCall,
    rejectUnknown_map ha, ok_bind]
  · simp only [get_map, lookup_field, reduceIte, String.reduceEq]
    rw [string_ok id.2, ok_bind, string_ok name.2, ok_bind, string_ok args.2]
    rfl
  · simp only [get_map, lookup_field, reduceIte, String.reduceEq]
    simp
  · simp only [isMessageItem, get_map, lookup_field, reduceIte, String.reduceEq]
    simp

/-- A part without its error flag, which the format has no place for. -/
def unflagged : Part → Part
  | .toolResult id content _ => .toolResult id content false
  | part => part

/-- A tool result reads back. -/
theorem reads_output (id : NonEmpty) (text : JsString) :
    Reads [outputItem id [text]] [] [(.user, .toolResult id [text] false)] := by
  apply Reads.single
  intro i
  refine ⟨.message ⟨.user, [.toolResult id [text] false], i⟩, ?_, rfl, rfl⟩
  have ha : ∀ f ∈ [("type", str "function_call_output"), ("call_id", Json.string id.1),
      ("output", Json.string (joinLines [text]))],
      f.1 ∈ ["type", "call_id", "output"] := by
    simp
  have hjn : joinLines [text] = text := by simp [joinLines]
  rw [outputItem, parseEntry, object_obj, ok_bind, parseItem, if_neg, if_neg, if_pos,
    functionCallOutput, rejectUnknown_map ha, ok_bind]
  · simp only [get_map, lookup_field, reduceIte, String.reduceEq]
    rw [string_ok id.2, ok_bind, hjn]
    rfl
  · simp only [get_map, lookup_field, reduceIte, String.reduceEq]
    simp
  · simp only [get_map, lookup_field, reduceIte, String.reduceEq]
    simp
  · simp only [isMessageItem, get_map, lookup_field, reduceIte, String.reduceEq]
    simp

/-- A part the format can carry: a text that is not empty, a result of one text. -/
def Carried : Part → Prop
  | .text text => text ≠ []
  | .toolResult _ content _ => content.length = 1
  | _ => True

instance : DecidablePred Carried
  | .text text => inferInstanceAs (Decidable (text ≠ []))
  | .image _ => isTrue trivial
  | .toolCall _ _ _ => isTrue trivial
  | .toolResult _ content _ => inferInstanceAs (Decidable (content.length = 1))

/-- **The items of a message are read as its parts**, after what has been collected. -/
theorem reads_items {got ps : List Part} (hc : ∀ part ∈ got, Readable part)
    (hca : ∀ part ∈ ps, Carried part) (hft : ∀ part ∈ got ++ ps, part.fits role = true) :
    Reads (items role (got.map (contentItem role)) ps) []
      ((got ++ ps.map unflagged).map fun part => (role, part)) := by
  induction ps generalizing got with
  | nil =>
    rw [append_nil] at hft
    rw [items, map_nil, append_nil]
    exact reads_flush hc hft
  | cons part ps ih =>
    have hr : ∀ part ∈ ps, Carried part :=
      fun p hp => hca p (mem_cons_of_mem _ hp)
    have hpt := hca part mem_cons_self
    have hF : ∀ part ∈ got, part.fits role = true :=
      fun p hp => hft p (mem_append_left _ hp)
    have hpa : ∀ part ∈ [] ++ ps, part.fits role = true :=
      fun p hp => hft p (mem_append_right _ (mem_cons_of_mem _ hp))
    have hf := hft part (mem_append_right _ mem_cons_self)
    -- content joins what is collected
    have hjn : Readable part → unflagged part = part →
        Reads (items role (got.map (contentItem role) ++ [contentItem role part]) ps) []
          ((got ++ (part :: ps).map unflagged).map fun part => (role, part)) := by
      intro hd hsm
      have hnx : ∀ p ∈ got ++ [part], Readable p := by
        intro p hp
        rcases mem_append.mp hp with hp | hp
        · exact hc p hp
        · rw [mem_singleton.mp hp]
          exact hd
      have hrd := ih hnx hr (by rwa [append_assoc])
      rw [map_append, append_assoc] at hrd
      rw [map_cons, hsm]
      exact hrd
    -- a call or a result flushes it
    have hl : ∀ item, Reads [item] [] [(role, unflagged part)] →
        Reads (flushContent role (got.map (contentItem role)) ++ item :: items role [] ps)
          [] ((got ++ (part :: ps).map unflagged).map fun part => (role, part)) := by
      intro item hi
      have ht := ih (fun p hp => absurd hp (not_mem_nil)) hr hpa
      have hrd := (reads_flush hc hF).append (hi.append ht)
      rw [map_append, map_cons, map_cons]
      exact hrd
    cases part with
    | text text => exact hjn hpt rfl
    | image src => exact hjn trivial rfl
    | toolCall id name args =>
      have hro : role = .assistant := of_decide_eq_true hf
      apply hl
      rw [hro]
      exact reads_call id name args
    | toolResult id txt isError =>
      have hro : role = .user := of_decide_eq_true hf
      obtain ⟨text, rfl⟩ := length_eq_one_iff.mp hpt
      apply hl
      rw [hro]
      exact reads_output id text

/-- The parts of whole messages, in the order they are rendered. -/
theorem reads_messages {msgs : List CanonicalMessage} {es : List (ℤ × Json)}
    (h : positionedMessages messageJson msgs = .ok es)
    (hc : ∀ msg ∈ msgs, ∀ p ∈ msg.content, Carried p)
    (hft : ∀ msg ∈ msgs, msg.Fits) :
    Reads (es.map Prod.snd) []
      (msgs.flatMap fun msg =>
        (msg.content.map unflagged).map fun p => (msg.role, p)) := by
  induction msgs generalizing es with
  | nil =>
    cases h
    exact Reads.nil
  | cons msg msgs ih =>
    obtain ⟨out, hn, h⟩ := bind_eq_ok.mp h
    obtain ⟨rest, hr, h⟩ := bind_eq_ok.mp h
    cases h
    cases hn
    have hf : Reads (items msg.role [] msg.content) []
        ((msg.content.map unflagged).map fun p => (msg.role, p)) :=
      reads_items (fun p hpt => absurd hpt not_mem_nil)
        (hc msg mem_cons_self) (hft msg mem_cons_self)
    have hl := ih hr (fun m hm => hc m (mem_cons_of_mem _ hm))
      (fun m hm => hft m (mem_cons_of_mem _ hm))
    have hs : (positioned msg.sourceIndex (items msg.role [] msg.content)).map
        Prod.snd = items msg.role [] msg.content := by
      rw [positioned, map_map]
      exact map_id _
    rw [map_append, hs, flatMap_cons]
    exact hf.append hl

/-- **The input of a rendered body is read as the instructions and parts it was written
from.** -/
theorem reads_entries {req : CanonicalRequest} {input : List (ℤ × Json)}
    (h : entries req = .ok input) (hc : Checked req)
    (hi : ∀ i ∈ req.instructions, ∀ text ∈ i.content, text ≠ [])
    (hr : ∀ msg ∈ req.messages, ∀ p ∈ msg.content, Carried p) :
    Reads (input.map Prod.snd) (req.instructions.map roleTexts)
      (req.messages.flatMap fun msg =>
        (msg.content.map unflagged).map fun p => (msg.role, p)) := by
  obtain ⟨msgs, hm, h⟩ := bind_eq_ok.mp h
  cases h
  have hl := reads_messages hm hr hc.fits
  have hf : ∀ instrs : List CanonicalInstruction,
      (∀ i ∈ instrs, ∀ text ∈ i.content, text ≠ []) →
      Reads ((instrs.flatMap fun i => positioned i.sourceIndex [instructionJson i]).map
        Prod.snd) (instrs.map roleTexts) [] := by
    intro instrs ha
    induction instrs with
    | nil => exact Reads.nil
    | cons i instrs ih =>
      have ho := reads_instruction (ha i mem_cons_self)
      exact ho.append (ih fun j hj => ha j (mem_cons_of_mem _ hj))
  have hrd := (hf req.instructions hi).append hl
  rw [append_nil, nil_append, ← map_append] at hrd
  exact hrd

end Responses

end ModelProxy.Protocols
