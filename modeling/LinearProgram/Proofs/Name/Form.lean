import LinearProgram.Proofs.Model.Reachable
import Mathlib.Data.List.Nodup

/-!
# The form of names

Whether a text is the text of a valid name can be said without reading it: it is a
template, or a template with the parts of a key in brackets.  Such a text is read as the
one valid name that is written so.  Valid names are therefore told apart by their texts
just as well as by their templates and keys.  The main statement is `text_exact`.
-/

namespace LinearProgram

namespace Name

/-- Templates: allowed characters, of which the first is neither a digit nor a point. -/
structure IsTemplate (cs : List Char) : Prop where
  begins : ∃ c rest, cs = c :: rest ∧ c.isDigit = false ∧ c ≠ '.'
  chars : ∀ c ∈ cs, isTemplateChar c = true

/-- Parts of keys: some allowed characters. -/
structure IsPart (cs : List Char) : Prop where
  ne_nil : cs ≠ []
  chars : ∀ c ∈ cs, isKeyChar c = true

/-- A template that is no reserved word, or a template with the parts of a key in brackets. -/
inductive HasForm : List Char → Prop where
  | flat {template : List Char} (htemplate : IsTemplate template)
      (hword : asciiLower (String.ofList template) ∉ reservedWords) : HasForm template
  | indexed {template : List Char} {parts : List (List Char)} (htemplate : IsTemplate template)
      (hne : parts ≠ []) (hparts : ∀ part ∈ parts, IsPart part) :
      HasForm (template ++ '[' :: (Text.joinWith [','] parts ++ [']']))

/-! ## Allowed characters -/

theorem isAscii_of_isAlphanum {c : Char} (h : c.isAlphanum = true) : c.toNat < 128 := by
  have hcode := toNat_of_isAlphanum h
  omega

/-- Letters, digits and some ASCII marks are ASCII characters. -/
theorem isAscii_of_isAlphanum_or_mark {c : Char} {marks : List Char}
    (hmarks : marks.all (fun mark => decide (mark.toNat < 128)) = true)
    (h : (c.isAlphanum || marks.contains c) = true) : c.toNat < 128 := by
  rcases Bool.or_eq_true_iff.mp h with halphanum | hmark
  · exact isAscii_of_isAlphanum halphanum
  · exact of_decide_eq_true (List.all_eq_true.mp hmarks c (List.contains_iff_mem.mp hmark))

theorem isAscii_of_isTemplateChar {c : Char} (h : isTemplateChar c = true) : c.toNat < 128 :=
  isAscii_of_isAlphanum_or_mark (by decide) h

theorem isAscii_of_isKeyChar {c : Char} (h : isKeyChar c = true) : c.toNat < 128 :=
  isAscii_of_isAlphanum_or_mark (by decide) h

/-- A text of this form has ASCII characters only. -/
theorem HasForm.isAscii {cs : List Char} (h : HasForm cs) : ∀ c ∈ cs, c.toNat < 128 := by
  intro c hc
  rcases h with ⟨htemplate, -⟩ | ⟨htemplate, -, hparts⟩
  · exact isAscii_of_isTemplateChar (htemplate.chars c hc)
  · simp only [List.mem_append, List.mem_cons, List.not_mem_nil, or_false] at hc
    rcases hc with hmem | rfl | hmem | rfl
    · exact isAscii_of_isTemplateChar (htemplate.chars c hmem)
    · decide
    · rcases Text.mem_joinWith hmem with rfl | ⟨part, hpart, hmem⟩
      · decide
      · exact isAscii_of_isKeyChar ((hparts part hpart).chars c hmem)
    · decide

/-! ## Valid names and their texts -/

theorem IsValid.isTemplate {name : Name} (h : name.IsValid) : IsTemplate name.template.toList :=
  ⟨h.template_starts, h.template_chars⟩

theorem isReserved_eq_false_iff (text : String) :
    isReserved text = false ↔ asciiLower text ∉ reservedWords := by
  rw [isReserved, List.contains_eq_mem, decide_eq_false_iff_not]

/-- What is written of a valid name has the form. -/
theorem IsValid.hasForm {name : Name} (h : name.IsValid) : HasForm name.chars := by
  by_cases hkey : name.key = []
  · have hword := (isReserved_eq_false_iff name.template).mp (h.not_reserved hkey)
    rw [chars, if_pos hkey]
    apply HasForm.flat h.isTemplate
    rw [String.ofList_toList]
    exact hword
  · rw [IsValid.chars_eq_of_key_ne_nil hkey]
    refine .indexed h.isTemplate (fun hnil => hkey (List.map_eq_nil_iff.mp hnil)) ?_
    intro part hpart
    obtain ⟨text, htext, rfl⟩ := List.mem_map.mp hpart
    exact ⟨h.part_ne_nil text htext, h.part_chars text htext⟩

/-- Every text of the form is written of a valid name. -/
theorem HasForm.exists_isValid {cs : List Char} (h : HasForm cs) :
    ∃ name : Name, name.IsValid ∧ name.chars = cs := by
  rcases h with ⟨htemplate, hword⟩ | @⟨template, parts, htemplate, hne, hparts⟩
  · refine ⟨⟨String.ofList cs, []⟩, ?_, ?_⟩
    · constructor
      case template_starts => simpa using htemplate.begins
      case template_chars => simpa using htemplate.chars
      case not_reserved => exact fun _ => (isReserved_eq_false_iff _).mpr hword
      case part_ne_nil => exact fun part hpart => absurd hpart List.not_mem_nil
      case part_chars => exact fun part hpart => absurd hpart List.not_mem_nil
    · simp [chars]
  · refine ⟨⟨String.ofList template, parts.map String.ofList⟩, ?_, ?_⟩
    · constructor
      case template_starts => simpa using htemplate.begins
      case template_chars => simpa using htemplate.chars
      case not_reserved =>
        intro hkey
        exact absurd (List.map_eq_nil_iff.mp hkey) hne
      case part_ne_nil =>
        intro text htext
        obtain ⟨part, hpart, rfl⟩ := List.mem_map.mp htext
        rw [String.toList_ofList]
        exact (hparts part hpart).ne_nil
      case part_chars =>
        intro text htext
        obtain ⟨part, hpart, rfl⟩ := List.mem_map.mp htext
        rw [String.toList_ofList]
        exact (hparts part hpart).chars
    · simp [chars, hne, Function.comp_def]

/-- A text is read as a valid name exactly when it has the form. -/
theorem isValid_ofChars_iff (cs : List Char) : (ofChars cs).IsValid ↔ HasForm cs := by
  constructor
  · intro h
    rw [← chars_ofChars cs]
    exact h.hasForm
  · intro h
    obtain ⟨name, hvalid, rfl⟩ := h.exists_isValid
    rw [hvalid.ofChars_chars]
    exact hvalid

theorem IsValid.text_eq_text_iff {name other : Name} (h : name.IsValid) (h' : other.IsValid) :
    name.text = other.text ↔ name = other := by
  constructor
  · intro htext
    rw [← h.ofText_text, ← h'.ofText_text, htext]
  · rintro rfl
    rfl

/-- Valid names are distinct when their texts are, and only then. -/
theorem nodup_map_text_iff {names : List Name} (h : ∀ name ∈ names, name.IsValid) :
    (names.map text).Nodup ↔ names.Nodup := by
  constructor
  · exact List.Nodup.of_map text
  · intro hnodup
    apply hnodup.map_on
    intro name hname other hother htext
    exact ((h name hname).text_eq_text_iff (h other hother)).mp htext

/--
Texts and names correspond exactly.  Reading a text and writing it again gives the text
back, so no two texts are read as one name.  A valid name, however it has been put
together, is read from its text, so distinct valid names have distinct texts.  Exactly the
texts of the form of names are read as valid names, and they are ASCII texts.
-/
theorem text_exact :
    (∀ text : String, (ofText text).text = text) ∧
      Function.Injective ofText ∧
      (∀ name : Name, name.check = .ok () → ofText name.text = name) ∧
      (∀ name other : Name, name.check = .ok () → other.check = .ok () →
        (name.text = other.text ↔ name = other)) ∧
      (∀ names : List Name, (∀ name ∈ names, name.check = .ok ()) →
        ((names.map text).Nodup ↔ names.Nodup)) ∧
      ∀ text : String, ((ofText text).check = .ok () ↔ HasForm text.toList) ∧
        (HasForm text.toList → ∀ c ∈ text.toList, c.toNat < 128) := by
  simp only [Name.check_eq_ok_iff]
  refine ⟨text_ofText, fun _ _ => ofText_injective, fun name h => h.ofText_text, ?_, ?_, ?_⟩
  · exact fun name other h h' => h.text_eq_text_iff h'
  · exact fun names h => nodup_map_text_iff h
  · exact fun text => ⟨isValid_ofChars_iff text.toList, HasForm.isAscii⟩

/-- A key of two parts is told apart from one part with a comma in it, which is not allowed. -/
theorem text_exact_hotDog :
    ∃ name other : Name, name = ⟨"Buy", ["hot_dog", "-2"]⟩ ∧ other = ⟨"Buy", ["hot_dog,-2"]⟩ ∧
      name.check = .ok () ∧ ofText name.text = name ∧ name.text = other.text ∧
      other.check ≠ .ok () ∧ HasForm name.text.toList ∧ ¬HasForm "S.T.".toList ∧
      ([name, flat "Buy"].map text).Nodup := by
  obtain ⟨-, -, hread, -, hnodup, hform⟩ := text_exact
  have hcheck (name : Name) : name.check = .ok () ↔ name.fault? = none :=
    (Name.check_eq_ok_iff name).trans name.fault?_eq_none_iff.symm
  have hname : (⟨"Buy", ["hot_dog", "-2"]⟩ : Name).check = .ok () := (hcheck _).mpr (by decide)
  have hflat : (flat "Buy").check = .ok () := (hcheck _).mpr (by decide)
  refine ⟨_, _, rfl, rfl, hname, hread _ hname, by decide, ?_, ?_, ?_, ?_⟩
  · rw [Ne, hcheck]
    decide
  · rw [← (hform _).1, hread _ hname]
    exact hname
  · rw [← (hform "S.T.").1, hcheck]
    decide
  · rw [hnodup _ (List.forall_mem_cons.mpr ⟨hname, List.forall_mem_singleton.mpr hflat⟩)]
    decide

end Name

end LinearProgram
