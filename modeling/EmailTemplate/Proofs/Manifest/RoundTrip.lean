import EmailTemplate.Manifest.Codec
import EmailTemplate.Proofs.Json.RoundTrip

/-! Templates and reports are read back from their JSON text, whatever is absent or empty. -/

namespace EmailTemplate

open Json

/-! ### Parts -/

namespace Json

theorem itemsNumberless_iff {items : List Value} :
    itemsNumberless items ↔ ∀ v ∈ items, v.Numberless := by
  induction items with
  | nil => simp [itemsNumberless]
  | cons v rest ih => simp [itemsNumberless, ih]

theorem Value.strings_numberless (names : List String) : (Value.strings names).Numberless := by
  refine itemsNumberless_iff.mpr fun v hv => ?_
  obtain ⟨s, -, rfl⟩ := List.mem_map.mp hv
  trivial

theorem ofItems_eq_map (items : List Value) : ofItems items = items.map Draft.ofValue := by
  induction items with
  | nil => rfl
  | cons v rest ih => rw [ofItems, ih, List.map_cons]

theorem toList?_ofValue {α : Type} {encode : α → Value} {decode : Draft → Decoded α}
    (h : ∀ a, decode (Draft.ofValue (encode a)) = .ok a) (list : List α) :
    (Draft.ofValue (.array (list.map encode))).toList? decode = .ok list := by
  have hmap : (list.map fun a => Draft.ofValue (encode a)).mapM decode = .ok list := by
    induction list with
    | nil => rfl
    | cons a rest ih =>
      rw [List.map_cons, List.mapM_cons, h, ih]
      rfl
  rw [Draft.ofValue, ofItems_eq_map, List.map_map, Draft.toList?]
  exact (congrArg (· >>= _) hmap).trans rfl

theorem toList?_strings (names : List String) :
    (Draft.ofValue (Value.strings names)).toList? Draft.toString? = .ok names :=
  toList?_ofValue (fun _ => rfl) names

theorem ofValue_object (members : List (String × Value)) :
    Draft.ofValue (.object members) = .object (ofMembers members) none := rfl

end Json

/-! ### Records -/

variable (origin : Origin)

theorem Placeholder.decode_encode (p : Placeholder) :
    decode origin (Draft.ofValue p.encode) = .ok p := by
  obtain ⟨name, kind, hint, element⟩ := p
  cases kind <;> cases element <;> rfl

theorem Cta.decode_encode (c : Cta) : decode origin (Draft.ofValue c.encode) = .ok c := rfl

theorem TemplateMeta.decode_encode (m : TemplateMeta) :
    decode origin (Draft.ofValue m.encode) = .ok m := by
  have hsubjects := toList?_strings m.suggestedSubjects
  have hctas := toList?_ofValue (Cta.decode_encode origin) m.detectedCtas
  have hblocks := toList?_strings m.hasBlocks
  simp only [decode, encode, ofValue_object, ofMembers, Record.decode, Record.members, record,
    Draft.setSuggestedSubjects, Draft.setDetectedCtas, Draft.setHasBlocks, hsubjects, hctas,
    hblocks]
  rfl

theorem AdaptedTemplate.decode_encode (t : AdaptedTemplate) :
    decode origin (Draft.ofValue t.encode) = .ok t := by
  have hplaceholders := toList?_ofValue (Placeholder.decode_encode origin) t.placeholders
  have hdetails := TemplateMeta.decode_encode origin t.details
  simp only [decode, encode, ofValue_object, ofMembers, Record.decode, Record.members, record,
    Draft.setPlaceholders, Draft.setDetails, hplaceholders, hdetails]
  rfl

theorem ValidationReport.decode_encode (r : ValidationReport) :
    decode origin (Draft.ofValue r.encode) = .ok r := by
  obtain ⟨valid, errors, warnings, placeholders, missing⟩ := r
  have herrors := toList?_strings errors
  have hwarnings := toList?_strings warnings
  have hplaceholders := toList?_strings placeholders
  have hmissing := toList?_strings missing
  cases missing with
  | nil =>
    simp only [decode, encode, ofValue_object, List.isEmpty_nil, if_true, List.append_nil,
      ofMembers, Record.decode, Record.members, record, Draft.setErrors, Draft.setWarnings,
      Draft.setPlaceholders, herrors, hwarnings, hplaceholders]
    rfl
  | cons name rest =>
    simp only [decode, encode, ofValue_object, List.isEmpty_cons, Bool.false_eq_true, if_false,
      List.cons_append, List.nil_append, ofMembers, Record.decode, Record.members, record,
      Draft.setErrors, Draft.setWarnings, Draft.setPlaceholders, Draft.setMissingRequired, herrors,
      hwarnings, hplaceholders, hmissing]
    rfl

/-! ### Texts -/

theorem Placeholder.encode_numberless (p : Placeholder) : p.encode.Numberless := by
  obtain ⟨name, kind, hint, element⟩ := p
  cases element <;> exact ⟨trivial, trivial, trivial, by simp [membersNumberless, Value.Numberless]⟩

theorem Cta.encode_numberless (c : Cta) : c.encode.Numberless :=
  ⟨trivial, trivial, trivial, trivial, trivial, trivial⟩

theorem Json.array_numberless {α : Type} {encode : α → Value} (h : ∀ a, (encode a).Numberless)
    (list : List α) : (Value.array (list.map encode)).Numberless := by
  refine itemsNumberless_iff.mpr fun v hv => ?_
  obtain ⟨a, -, rfl⟩ := List.mem_map.mp hv
  exact h a

theorem TemplateMeta.encode_numberless (m : TemplateMeta) : m.encode.Numberless :=
  ⟨Value.strings_numberless _, trivial, array_numberless Cta.encode_numberless _, trivial,
    Value.strings_numberless _, trivial⟩

theorem AdaptedTemplate.encode_numberless (t : AdaptedTemplate) : t.encode.Numberless :=
  ⟨trivial, trivial, array_numberless Placeholder.encode_numberless _,
    t.details.encode_numberless, trivial⟩

theorem ValidationReport.encode_numberless (r : ValidationReport) : r.encode.Numberless := by
  have hstrings := Value.strings_numberless
  refine ⟨trivial, hstrings _, hstrings _, hstrings _, ?_⟩
  cases h : r.missingRequired.isEmpty with
  | true => trivial
  | false => exact ⟨hstrings _, trivial⟩

theorem Json.decodeText_pretty {α : Type} {decode : Draft → Decoded α} {v : Value} {a : α}
    (hv : v.Numberless) (h : decode (Draft.ofValue v) = .ok a) :
    decodeText decode v.pretty = .ok a := by
  simp only [decodeText, parse_pretty hv, h]
  rfl

theorem Json.decodeText_toLine {α : Type} {decode : Draft → Decoded α} {v : Value} {a : α}
    (hv : v.Numberless) (h : decode (Draft.ofValue v) = .ok a) :
    decodeText decode v.toLine = .ok a := by
  simp only [decodeText, parse_toLine hv, h]
  rfl

theorem AdaptedTemplate.decodeText_pretty (t : AdaptedTemplate) :
    decodeText (decode .text) t.encode.pretty = .ok t :=
  Json.decodeText_pretty t.encode_numberless (decode_encode .text t)

end EmailTemplate
