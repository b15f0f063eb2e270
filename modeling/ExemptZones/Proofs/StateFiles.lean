import ExemptZones.Loading
import ExemptZones.Proofs.JsonChars
import ExemptZones.Proofs.YamlNodes

/-
Genesis states in files. What is written there reads back, if the writer and the reader agree on the text and if nothing
happens to the text in between: a file is read with its line breaks unified, so no carriage return may stand in it. A
text with one in it writes it by a code, in either form.

`Loading.genesis_json_file`: a state written to a JSON file reads back.
`Loading.genesis_yaml_file`: so does one in a file of any other name, and every text in it is read as a text.
-/

namespace ExemptZones

theorem Text.unifyBreaks_of_not_mem {cs : List Char} (h : '\r' ∉ cs) : Text.unifyBreaks cs = cs := by
  induction cs with
  | nil => rfl
  | cons c cs ih =>
    rw [List.mem_cons, not_or] at h
    rw [Text.unifyBreaks, ih h.2]
    · rintro _ rfl -
      exact h.1 rfl
    · exact fun hc => h.1 hc.symm

/-- A text without carriage returns is read from a file as it was written. -/
theorem Loading.fileText_encode {s : String} (h : '\r' ∉ s.toList) : Loading.fileText (Utf8.encode s) = .ok s := by
  rw [Loading.fileText, Utf8.decode?_encode]
  simp only [Text.unifyBreaks_of_not_mem h, String.ofList_toList]

/-! ## JSON -/

theorem AddressGroup.plain_toValue (g : AddressGroup) : Json.Plain g.toValue := by
  refine .object (by simp) fun f hf => ?_
  simp only [List.mem_cons, List.not_mem_nil, or_false] at hf
  rcases hf with rfl | rfl
  · exact .text _
  · refine .list fun v hv => ?_
    obtain ⟨a, -, rfl⟩ := List.mem_map.1 hv
    exact .text a

theorem GenesisState.plain_toValue (s : GenesisState) : Json.Plain s.toValue := by
  refine .object (by simp) fun f hf => ?_
  simp only [List.mem_cons, List.not_mem_nil, or_false] at hf
  rcases hf with rfl | rfl
  · refine .list fun v hv => ?_
    obtain ⟨z, -, rfl⟩ := List.mem_map.1 hv
    exact z.plain_toValue
  · refine .list fun v hv => ?_
    obtain ⟨g, -, rfl⟩ := List.mem_map.1 hv
    exact g.plain_toValue

/-! ## YAML -/

namespace Yaml

theorem return_not_mem_of_ordinary {cs : List Char} (h : Ordinary cs) : '\r' ∉ cs := fun hm =>
  absurd (h _ hm) (by decide)

theorem plain_zone (n : Nat) (z : Zone) : Plain (n + 1) z.toValue := by
  refine .object (by simp [Flags.fields]) ?_ fun f hf => ?_
  · simp only [Flags.fields, List.mem_cons, List.not_mem_nil, or_false, forall_eq_or_imp, forall_eq]
    decide
  · simp only [Flags.fields, List.mem_cons, List.not_mem_nil, or_false] at hf
    rcases hf with rfl | rfl | rfl | rfl
    · exact .text n _
    · exact .bool n _
    · exact .bool n _
    · exact .bool n _

theorem plain_group (n : Nat) (g : AddressGroup) : Plain (n + 2) g.toValue := by
  refine .object (by simp) ?_ fun f hf => ?_
  · simp only [List.mem_cons, List.not_mem_nil, or_false, forall_eq_or_imp, forall_eq]
    decide
  · simp only [List.mem_cons, List.not_mem_nil, or_false] at hf
    rcases hf with rfl | rfl
    · exact .text _ _
    · refine .list fun v hv => ?_
      obtain ⟨a, -, rfl⟩ := List.mem_map.1 hv
      exact .text n a

end Yaml

/-! ## Files -/

namespace GenesisState

/-- The fields of a genesis state, which is never without any. -/
def fields (s : GenesisState) : List (String × Value) :=
  [("zone_list", .list (s.zones.map Zone.toValue)), ("addresses_by_zone", .list (s.groups.map AddressGroup.toValue))]

theorem yaml_fields (s : GenesisState) : (∀ f ∈ s.fields, Yaml.IsKey f.1) ∧ ∀ f ∈ s.fields, Yaml.Plain 3 f.2 := by
  simp only [fields, List.mem_cons, List.not_mem_nil, or_false, forall_eq_or_imp, forall_eq]
  refine ⟨by decide, .list fun v hv => ?_, .list fun v hv => ?_⟩
  · obtain ⟨z, -, rfl⟩ := List.mem_map.1 hv
    exact Yaml.plain_zone 1 z
  · obtain ⟨g, -, rfl⟩ := List.mem_map.1 hv
    exact Yaml.plain_group 0 g

end GenesisState

namespace Loading

theorem document_json_file (s : GenesisState) {name : Text} (h : isJson name = true) :
    document name (Utf8.encode (s.write (.ofName name))) = .ok s.toValue := by
  have hw : s.write (.ofName name) = Json.write .pretty s.toValue := by
    rw [GenesisState.Format.ofName, if_pos h, GenesisState.write]
  have hr : '\r' ∉ (Json.write .pretty s.toValue).toList := by
    rw [Json.write, String.toList_ofList]
    exact (s.plain_toValue.printed 0).return_not_mem
  rw [hw, document, fileText_encode hr]
  simp only [bind, Except.bind, if_pos h, Json.read_write .kept .pretty s.plain_toValue]

theorem document_yaml_file (s : GenesisState) {name : Text} (h : isJson name = false) :
    document name (Utf8.encode (s.write (.ofName name))) = .ok s.toValue := by
  have hjson : ¬ isJson name = true := by simp [h]
  have hw : s.write (.ofName name) = Yaml.write s.toValue := by
    rw [GenesisState.Format.ofName, if_neg hjson, GenesisState.write]
  obtain ⟨hkeys, hplain⟩ := s.yaml_fields
  have hr : '\r' ∉ (Yaml.write s.toValue).toList := by
    rw [Yaml.write, String.toList_ofList]
    exact Yaml.return_not_mem_of_ordinary (Yaml.tokens_document hkeys hplain (by decide)).1
  have hread : Yaml.read (Yaml.write s.toValue) = .ok s.toValue :=
    Yaml.read_write (by simp) hkeys hplain (by decide)
  rw [hw, document, fileText_encode hr]
  simp only [bind, Except.bind, if_neg hjson, hread]
  rfl

/-- A file that holds the value of a genesis state, in whatever form, holds the state. -/
theorem genesis_of_document {name : Text} {b : Bytes} {s : GenesisState} (h : document name b = .ok s.toValue) :
    genesis name b = .ok s := by
  have hv : orEmpty s.toValue = s.toValue := rfl
  rw [genesis, h]
  simp only [bind, Except.bind, hv, GenesisDraft.ofValue_toValue]
  rfl

/-- **A genesis state in a JSON file reads back**, whatever texts are in it. -/
theorem genesis_json_file (s : GenesisState) {name : Text} (h : isJson name = true) :
    genesis name (Utf8.encode (s.write (.ofName name))) = .ok s :=
  genesis_of_document (document_json_file s h)

theorem genesis_json_file_escapes :
    let s : GenesisState :=
      ⟨[⟨⟨true, false, true⟩, "\"\\/\x08\x0c\n\r\t\x00\x1f\x7f\x85\u2028\u2029\ufeff😀"⟩, ⟨{}, ""⟩],
        [⟨"\r\n", []⟩, ⟨"", ["\\u0041", ""]⟩]⟩
    genesis "state.json" (Utf8.encode (s.write (.ofName "state.json"))) = .ok s :=
  genesis_json_file _ (by decide)

/-- **A genesis state in a file of any other name reads back**: every text of it is read as a text, and as the same one,
whatever else it may look like. -/
theorem genesis_yaml_file (s : GenesisState) {name : Text} (h : isJson name = false) :
    document name (Utf8.encode (s.write (.ofName name))) = .ok s.toValue ∧
      genesis name (Utf8.encode (s.write (.ofName name))) = .ok s :=
  ⟨document_yaml_file s h, genesis_of_document (document_yaml_file s h)⟩

theorem genesis_yaml_file_lookalikes :
    let s : GenesisState :=
      ⟨[⟨{}, "yes"⟩, ⟨⟨true, false, true⟩, "null"⟩, ⟨{}, "- a"⟩, ⟨{}, "a: b"⟩, ⟨{}, ""⟩],
        [⟨"=", ["0x1F", "12:30", "1_000", "~", "<<", "2001-01-01", ".5", "0b1"]⟩,
          ⟨"\n a \n\n", [" a", "a ", "a\nb", "# a", "'", "\"", "...", "---", "%", "\t", "\r\n", "\ufeff", "\u2028"]⟩]⟩
    document "state.yaml" (Utf8.encode (s.write (.ofName "state.yaml"))) = .ok s.toValue ∧
      genesis "state.yaml" (Utf8.encode (s.write (.ofName "state.yaml"))) = .ok s :=
  genesis_yaml_file _ (by decide)

end Loading

end ExemptZones
