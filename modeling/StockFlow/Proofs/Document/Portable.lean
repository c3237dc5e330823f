import StockFlow.Engine
import StockFlow.Proofs.Json.Portable
import StockFlow.Proofs.Outcome
import StockFlow.Proofs.Yaml.Flow
/-!
# JSON sheets as YAML sheets

A sheet without an identifier is read as YAML, and so is a JSON sheet that is the first one. YAML is
no superset of JSON: a number with an exponent is a text unless it has a point and its exponent a
sign (`not_yaml_parse_of_json_parse`). A portable text means the same in both formats, however it is
reached (`Engine.parse_eq_of_isPortable`).
-/

namespace StockFlow

/-- The value of a portable tree is found in YAML too. -/
lemma Yaml.parse_of_isPortable {before after : Json.Space} {t : Json.Tree}
    (hbefore : before.IsPortable) (ht : t.IsPortable) (hafter : after.IsPortable) :
    Yaml.parse (before.text ++ (t.text ++ after.text)) = .ok t.value := by
  obtain ⟨nodes, hnodes, hplain, hvalue⟩ := ofTokens?_of_isPortable ht
  obtain ⟨v, hv⟩ := hplain.exists_isValuation
  unfold Yaml.parse
  rw [Lexer.tokens_of_isPortable hbefore ht hafter]
  dsimp only
  rw [hnodes]
  refine (value_of_isPlain hplain hv hvalue.lt_size).trans ?_
  rw [hvalue.value_eq nodes v .refl hv]

/-! ## The formats of identifiers -/

/-- A document without an extension is read in the first format. -/
lemma formatFor_of_extensionOf_eq_nil {f : Format} {formats : List Format} {identifier : Text}
    (h : extensionOf identifier = []) : formatFor (f :: formats) identifier = .ok f := by
  have hnone : formats.find? (fun _ => false) = none :=
    List.find?_eq_none.mpr fun _ _ => Bool.false_ne_true
  simp [formatFor, formatFor?, h, hnone]

/-- A JSON document is read as such, whatever other formats there are. -/
lemma formatFor_json {formats : List Format} {identifier : Text}
    (h : (extensionOf identifier).map CodePoint.toLower = ".json") :
    formatFor (Format.standard ++ formats) identifier = .ok .json := by
  unfold formatFor formatFor?
  rw [h]
  rfl

namespace Engine

/-- The formats of an engine begin with those that are always there. -/
lemma exists_formats_eq {settings : Settings} {table : EntryTable}
    {plugins : List (Text × Offer)} {e : Engine}
    (h : Engine.create settings table plugins = .ok e) :
    ∃ further, e.formats = Format.standard ++ further := by
  unfold Engine.create at h
  dsimp only at h
  split at h
  · cases h
  · obtain ⟨registry, -, h⟩ := Outcome.bind_eq_ok_iff.mp h
    cases h
    exact ⟨_, rfl⟩

/-- **Portable JSON texts.**  Both formats give one value for a portable JSON text, and so it is the
same sheet to an engine whether it is the first one or the document of a JSON identifier. -/
theorem parse_eq_of_isPortable {settings : Settings} {table : EntryTable}
    {plugins : List (Text × Offer)} {e : Engine}
    (he : Engine.create settings table plugins = .ok e) (files? : Option Files) (mode : Mode)
    {text : Text} (htext : Json.IsPortable text) {identifier : Text}
    (hid : (extensionOf identifier).map CodePoint.toLower = ".json") :
    ∃ d, Json.parse text = .ok d ∧ Yaml.parse text = .ok d ∧
      (e.loader files? mode).parse rootSource text = .ok d ∧
      (e.loader files? mode).parse identifier text = .ok d := by
  obtain ⟨before, t, after, hbefore, ht, hafter, rfl⟩ := htext
  have hjson : Json.parse (before.text ++ (t.text ++ after.text)) = .ok t.value :=
    Json.parse_eq_ok_iff.mpr ⟨before, t, after, rfl, rfl⟩
  have hyaml := Yaml.parse_of_isPortable hbefore ht hafter
  obtain ⟨further, hformats⟩ := exists_formats_eq he
  have hroot : formatFor (e.loader files? mode).formats rootSource = .ok .yaml := by
    rw [show (e.loader files? mode).formats = .yaml :: .json :: further from hformats]
    exact formatFor_of_extensionOf_eq_nil (by decide +kernel)
  have hembedded : formatFor (e.loader files? mode).formats identifier = .ok .json := by
    rw [show (e.loader files? mode).formats = Format.standard ++ further from hformats]
    exact formatFor_json hid
  refine ⟨t.value, hjson, hyaml, ?_, ?_⟩
  · rw [Loader.parse, hroot]
    exact hyaml
  · rw [Loader.parse, hembedded]
    exact hjson

end Engine

/-! ## Two texts -/

/-- Code points that stand for themselves. -/
def Json.rawPieces (cs : List Char)
    (h : cs.all (fun c => CodePoint.char c ≠ .char '"' ∧ CodePoint.char c ≠ .char '\\' ∧
      0x20 ≤ c.toNat) = true) : List Json.Piece :=
  cs.pmap (fun c hc => .raw (.char c) (of_decide_eq_true hc)) (List.all_eq_true.mp h)

/-- A sheet with a title that has an escape, and with a width that has an exponent. -/
def scaledTree : Json.Tree :=
  let blank : Json.Space := ⟨" ", by decide⟩
  let accent : Json.Quad := ⟨.char '0', .char '0', .char 'e', .char '9', 0xe9, rfl⟩
  let width : Json.Numeral :=
    { negative := false
      whole := ['1']
      fraction := ['5']
      exponent? := some ⟨'e', some false, ['3'], .inl rfl, by simp, List.all_eq_true.mp (by decide)⟩
      nonempty := by simp
      whole_decimal := List.all_eq_true.mp (by decide)
      leading := by simp
      fraction_decimal := List.all_eq_true.mp (by decide)
      short := by simp }
  .map .none
    (.more ⟨Json.rawPieces "title".toList (by decide), .none, blank⟩
      (.string (Json.rawPieces "Caf".toList (by decide) ++ [.code accent])) .none blank
      (.last ⟨Json.rawPieces "width".toList (by decide), .none, blank⟩ (.number width) .none))

/-- The text of the sheet is the same sheet to an engine whether it is the first one or the document
of a JSON identifier. -/
theorem parse_eq_of_isPortable_scaledTree :
    let text : Text := "\x7b\"title\": \"Caf\\u00e9\", \"width\": 1.5e+3\x7d"
    ∃ e, Engine.create {} [] [] = .ok e ∧ Json.IsPortable text ∧
      (extensionOf "scaled.JSON").map CodePoint.toLower = ".json" ∧
      ∃ d, Json.parse text = .ok d ∧ Yaml.parse text = .ok d ∧
        (e.loader none .blocking).parse rootSource text = .ok d ∧
        (e.loader none .blocking).parse "scaled.JSON" text = .ok d := by
  intro text
  have he : Engine.create {} [] [] = .ok ⟨{}, Format.standard, {}⟩ := rfl
  have htext : Json.IsPortable text :=
    ⟨.none, scaledTree, .none, by decide, by decide +kernel, by decide, by decide +kernel⟩
  have hid : (extensionOf "scaled.JSON").map CodePoint.toLower = ".json" := by decide +kernel
  exact ⟨_, he, htext, hid, Engine.parse_eq_of_isPortable he none .blocking htext hid⟩

/-- A number with an exponent but without a point is a text in YAML, so not every JSON text means the
same in both formats. -/
theorem not_yaml_parse_of_json_parse :
    ¬∀ (text : Text) (d : Datum), Json.parse text = .ok d → Yaml.parse text = .ok d := by
  intro h
  have hjson : (Json.parse "1e3").map Datum.literal? = .ok (some "1000.0") := by decide +kernel
  have hyaml : (Yaml.parse "1e3").map Datum.literal? = .ok (some "'1e3'") := by decide +kernel
  cases hparse : Json.parse "1e3" with
  | error failure =>
    rw [hparse] at hjson
    cases hjson
  | ok d =>
    rw [hparse] at hjson
    rw [h _ d hparse, hjson] at hyaml
    revert hyaml
    decide

end StockFlow
