import LinearProgram.Document.Parser
import LinearProgram.Name
import LinearProgram.Proofs.Token.Spelling

/-!
# Spelling of names

A name without a fault is one token of LP text, reads back as the same name, and is none
of the words with a meaning of their own.  The checks on names are first gathered into
`Name.IsValid`, from which all three facts follow.
-/

namespace LinearProgram

open Token

namespace Text

theorem splitOn_of_not_mem {separator : Char} {cs : List Char} (h : separator ∉ cs) :
    splitOn separator cs = [cs] := by
  induction cs with
  | nil => rfl
  | cons c cs ih =>
      have hc : c ≠ separator := fun heq => h (heq ▸ List.mem_cons_self)
      have hcs : separator ∉ cs := fun hmem => h (List.mem_cons_of_mem c hmem)
      rw [splitOn, if_neg hc, ih hcs]

theorem splitOn_append {separator : Char} {cs : List Char} (h : separator ∉ cs)
    (rest : List Char) :
    splitOn separator (cs ++ separator :: rest) = cs :: splitOn separator rest := by
  induction cs with
  | nil => rw [List.nil_append, splitOn, if_pos rfl]
  | cons c cs ih =>
      have hc : c ≠ separator := fun heq => h (heq ▸ List.mem_cons_self)
      have hcs : separator ∉ cs := fun hmem => h (List.mem_cons_of_mem c hmem)
      rw [List.cons_append, splitOn, if_neg hc, ih hcs]

theorem not_mem_of_mem_splitOn {separator : Char} {cs piece : List Char}
    (h : piece ∈ splitOn separator cs) : separator ∉ piece := by
  induction cs generalizing piece with
  | nil =>
      rw [List.mem_singleton.mp h]
      exact List.not_mem_nil
  | cons c cs ih =>
      rw [splitOn] at h
      split at h
      · rcases List.mem_cons.mp h with rfl | hlater
        · exact List.not_mem_nil
        · exact ih hlater
      · next hc =>
          split at h
          · rw [List.mem_singleton.mp h, List.mem_singleton]
            exact Ne.symm hc
          · next first pieces heq =>
              have hpieces : ∀ other ∈ first :: pieces, separator ∉ other := fun other hmem =>
                ih (heq ▸ hmem)
              rcases List.mem_cons.mp h with rfl | hlater
              · rw [List.mem_cons, not_or]
                exact ⟨Ne.symm hc, hpieces first List.mem_cons_self⟩
              · exact hpieces piece (List.mem_cons_of_mem first hlater)

/-- Joined pieces are cut apart again when none of them has the separator. -/
theorem splitOn_joinWith {separator : Char} {pieces : List (List Char)} (hne : pieces ≠ [])
    (h : ∀ piece ∈ pieces, separator ∉ piece) :
    splitOn separator (joinWith [separator] pieces) = pieces := by
  induction pieces with
  | nil => exact absurd rfl hne
  | cons piece pieces ih =>
      have hpiece := h piece List.mem_cons_self
      cases pieces with
      | nil => exact splitOn_of_not_mem hpiece
      | cons next pieces =>
          have hpieces := ih (List.cons_ne_nil _ _) fun p hp => h p (List.mem_cons_of_mem _ hp)
          rw [joinWith, List.append_assoc, List.singleton_append, splitOn_append hpiece, hpieces]
          exact List.cons_ne_nil _ _

theorem mem_joinWith {separator c : Char} {pieces : List (List Char)}
    (h : c ∈ joinWith [separator] pieces) : c = separator ∨ ∃ piece ∈ pieces, c ∈ piece := by
  induction pieces with
  | nil => exact absurd h List.not_mem_nil
  | cons piece pieces ih =>
      cases pieces with
      | nil => exact .inr ⟨piece, List.mem_cons_self, h⟩
      | cons next pieces =>
          rw [joinWith] at h
          · simp only [List.mem_append, List.mem_singleton] at h
            rcases h with (hpiece | hseparator) | hrest
            · exact .inr ⟨piece, List.mem_cons_self, hpiece⟩
            · exact .inl hseparator
            · rcases ih hrest with hseparator | ⟨p, hp, hc⟩
              · exact .inl hseparator
              · exact .inr ⟨p, List.mem_cons_of_mem _ hp, hc⟩
          · exact List.cons_ne_nil _ _

end Text

/-! ## Characters of names -/

/-- The codes of ASCII letters and digits. -/
theorem toNat_of_isAlphanum {c : Char} (h : c.isAlphanum = true) :
    (65 ≤ c.toNat ∧ c.toNat ≤ 90 ∨ 97 ≤ c.toNat ∧ c.toNat ≤ 122) ∨
      48 ≤ c.toNat ∧ c.toNat ≤ 57 := by
  have hclass : ((decide (65 ≤ c.val ∧ c.val ≤ 90) ||
      decide (97 ≤ c.val) && decide (c.val ≤ 122)) ||
      decide (48 ≤ c.val) && decide (c.val ≤ 57)) = true := h
  simp only [Bool.or_eq_true, Bool.and_eq_true, decide_eq_true_eq,
    UInt32.le_iff_toNat_le] at hclass
  exact hclass

theorem isAlphanumeric_of_isAlphanum {c : Char} (h : c.isAlphanum = true) :
    isAlphanumeric c = true := by
  obtain ⟨ranges, hranges⟩ : ∃ ranges : CodeRanges,
      alphanumericRanges = (0x30, 0x39) :: (0x41, 0x5A) :: (0x61, 0x7A) :: ranges := ⟨_, rfl⟩
  have hcode := toNat_of_isAlphanum h
  change alphanumericRanges.coversCode c.toNat = true
  rw [hranges]
  generalize c.toNat = code at hcode ⊢
  simp only [CodeRanges.coversCode]
  grind

theorem isIdentChar_of_isTemplateChar {c : Char} (h : Name.isTemplateChar c = true) :
    isIdentChar c = true := by
  simp only [Name.isTemplateChar, isIdentChar, Bool.or_eq_true] at h ⊢
  rcases h with h | h
  · exact .inl (isAlphanumeric_of_isAlphanum h)
  · have hmarks : Name.templateMarks.all identMarks.contains = true := by decide
    exact .inr (List.all_eq_true.mp hmarks c (by simpa using h))

theorem ne_of_isTemplateChar {c d : Char} (hc : Name.isTemplateChar c = true)
    (hd : Name.isTemplateChar d = false) : c ≠ d := by
  rintro rfl
  rw [hc] at hd
  exact Bool.noConfusion hd

theorem ne_of_isKeyChar {c d : Char} (hc : Name.isKeyChar c = true)
    (hd : Name.isKeyChar d = false) : c ≠ d := by
  rintro rfl
  rw [hc] at hd
  exact Bool.noConfusion hd

namespace Name

/-- A name that is read from a text is written as this text. -/
theorem text_ofText (text : String) : (ofText text).text = text := by
  rw [Name.text, ofText, chars_ofChars, String.ofList_toList]

theorem ofText_injective {text text' : String} (h : ofText text = ofText text') :
    text = text' := by
  rw [← text_ofText text, h, text_ofText]

/-- What the checks on a name make sure of. -/
structure IsValid (name : Name) : Prop where
  template_starts : ∃ c cs, name.template.toList = c :: cs ∧ c.isDigit = false ∧ c ≠ '.'
  template_chars : ∀ c ∈ name.template.toList, isTemplateChar c = true
  not_reserved : name.key = [] → isReserved name.template = false
  part_ne_nil : ∀ part ∈ name.key, part.toList ≠ []
  part_chars : ∀ part ∈ name.key, ∀ c ∈ part.toList, isKeyChar c = true

theorem ite_some_eq_none_iff {α : Type} {p : Prop} [Decidable p] {x : α} {y : Option α} :
    (if p then some x else y) = none ↔ ¬p ∧ y = none := by
  by_cases h : p <;> simp [h]

theorem keyPartFault?_eq_none_iff (part : String) :
    keyPartFault? part = none ↔ part.toList ≠ [] ∧ ∀ c ∈ part.toList, isKeyChar c = true := by
  rw [keyPartFault?, ite_some_eq_none_iff]
  by_cases h : part.toList.all isKeyChar = true
  · simpa [h] using fun _ => List.all_eq_true.mp h
  · have hnot : ¬∀ c ∈ part.toList, isKeyChar c = true := fun hall => h (List.all_eq_true.mpr hall)
    simp [h, hnot]

/-- The checks on a name find no fault exactly when the name is valid. -/
theorem fault?_eq_none_iff (name : Name) : name.fault? = none ↔ name.IsValid := by
  have hkey : name.isIndexed = false ↔ name.key = [] := by
    simp [isIndexed]
  have hparts : name.key.findSome? keyPartFault? = none ↔
      ∀ part ∈ name.key, part.toList ≠ [] ∧ ∀ c ∈ part.toList, isKeyChar c = true := by
    simp only [List.findSome?_eq_none_iff, keyPartFault?_eq_none_iff]
  rw [fault?]
  split
  · next hnil =>
      constructor
      · intro h
        exact absurd h (Option.some_ne_none _)
      · rintro ⟨⟨c, cs, hcons, -⟩, -⟩
        exact absurd (hnil.symm.trans hcons) (List.cons_ne_nil _ _).symm
  · next first rest hcons =>
      rw [ite_some_eq_none_iff, ite_some_eq_none_iff, ite_some_eq_none_iff, hparts]
      simp only [Bool.or_eq_true, beq_iff_eq, not_or, Bool.not_eq_true', Bool.not_eq_false,
        Bool.not_eq_true, Bool.and_eq_true, not_and, hkey]
      constructor
      · rintro ⟨hstart, hchars, hreserved, hkeys⟩
        refine ⟨⟨first, rest, hcons, hstart⟩, ?_, hreserved, fun part hp => (hkeys part hp).1,
          fun part hp => (hkeys part hp).2⟩
        rw [hcons]
        exact List.all_eq_true.mp hchars
      · rintro ⟨⟨c, cs, hcons', hstart⟩, hchars, hreserved, hne, hkeys⟩
        obtain ⟨rfl, rfl⟩ := List.cons.inj (hcons.symm.trans hcons')
        rw [hcons] at hchars
        exact ⟨hstart, List.all_eq_true.mpr hchars, hreserved,
          fun part hp => ⟨hne part hp, hkeys part hp⟩⟩

namespace IsValid

variable {name : Name}

theorem template_ne_of_not_char {c : Char} (h : name.IsValid) (hc : isTemplateChar c = false) :
    c ∉ name.template.toList := by
  intro hmem
  exact ne_of_isTemplateChar (h.template_chars c hmem) hc rfl

theorem key_ne_of_not_char {c : Char} (h : name.IsValid) (hc : isKeyChar c = false) :
    ∀ part ∈ name.key.map String.toList, c ∉ part := by
  intro cs hcs hmem
  obtain ⟨part, hpart, rfl⟩ := List.mem_map.mp hcs
  exact ne_of_isKeyChar (h.part_chars part hpart c hmem) hc rfl

theorem joined_ne_of_not_char {c : Char} (h : name.IsValid) (hc : isKeyChar c = false)
    (hcomma : c ≠ ',') : c ∉ Text.joinWith [','] (name.key.map String.toList) := by
  intro hmem
  rcases Text.mem_joinWith hmem with heq | ⟨part, hpart, hmem⟩
  · exact hcomma heq
  · exact h.key_ne_of_not_char hc part hpart hmem

theorem joined_ne_nil (h : name.IsValid) (hkey : name.key ≠ []) :
    Text.joinWith [','] (name.key.map String.toList) ≠ [] := by
  have hne := h.part_ne_nil
  cases hk : name.key with
  | nil => exact absurd hk hkey
  | cons part parts =>
      obtain ⟨c, cs, hcons⟩ := List.exists_cons_of_ne_nil (hne part (hk ▸ List.mem_cons_self))
      rw [List.map_cons, hcons, Text.joinWith_cons_head]
      exact List.cons_ne_nil _ _

theorem chars_eq_of_key_ne_nil (hkey : name.key ≠ []) :
    name.chars = name.template.toList ++
      '[' :: (Text.joinWith [','] (name.key.map String.toList) ++ [']']) := by
  rw [chars, if_neg hkey]

theorem bracketed?_append {template key : List Char} (htemplate : template ≠ []) (hkey : key ≠ [])
    (hbracket : '[' ∉ template) :
    bracketed? (template ++ '[' :: (key ++ [']'])) = some (template, key) := by
  have hpos : ∀ c ∈ template, decide (c ≠ '[') = true := by
    intro c hc
    have hne : c ≠ '[' := fun heq => hbracket (heq ▸ hc)
    simpa using hne
  have hlast : template ++ '[' :: (key ++ [']']) = (template ++ '[' :: key) ++ [']'] := by simp
  have htake : (template ++ '[' :: key).takeWhile (· ≠ '[') = template := by
    rw [List.takeWhile_append_of_pos hpos]
    simp
  have hdrop : (template ++ '[' :: key).dropWhile (· ≠ '[') = '[' :: key := by
    rw [List.dropWhile_append_of_pos hpos]
    simp
  rw [bracketed?, hlast, List.getLast?_concat, if_pos rfl, List.dropLast_concat, htake, hdrop]
  simp [htemplate, hkey]

/-- A valid name is read back from its written form. -/
theorem ofChars_chars (h : name.IsValid) : ofChars name.chars = name := by
  obtain ⟨template, key⟩ := name
  by_cases hkey : key = []
  · have hlast : template.toList.getLast? ≠ some ']' := by
      intro hlast
      exact h.template_ne_of_not_char (c := ']') (by decide) (List.mem_of_getLast? hlast)
    subst hkey
    simp [ofChars, chars, bracketed?, hlast, flat]
  · have hbracket : '[' ∉ template.toList := h.template_ne_of_not_char (by decide)
    have hjoined := h.joined_ne_nil hkey
    obtain ⟨c, cs, hcons, -⟩ := h.template_starts
    have hsplit : Text.splitOn ',' (Text.joinWith [','] (key.map String.toList)) =
        key.map String.toList :=
      Text.splitOn_joinWith (by simpa using hkey) (h.key_ne_of_not_char (by decide))
    have hbracketed : bracketed? (chars ⟨template, key⟩) =
        some (template.toList, Text.joinWith [','] (key.map String.toList)) := by
      rw [chars_eq_of_key_ne_nil hkey]
      exact bracketed?_append (by rw [hcons]; exact List.cons_ne_nil _ _) hjoined hbracket
    simp [ofChars, hbracketed, hsplit, Function.comp_def]

/-- A valid name is read back from its text. -/
theorem ofText_text (h : name.IsValid) : ofText name.text = name := by
  rw [ofText, text, String.toList_ofList, h.ofChars_chars]

theorem chars_injective {name' : Name} (h : name.IsValid) (h' : name'.IsValid)
    (heq : name.chars = name'.chars) : name = name' := by
  rw [← h.ofChars_chars, ← h'.ofChars_chars, heq]

/-! ## Valid names as tokens -/

theorem identExtent_brackets {cs : List Char} (hopen : '[' ∉ cs) (hclose : ']' ∉ cs)
    (hline : '\n' ∉ cs) (rest : List Char) :
    identExtent 1 (cs ++ rest) = cs.length + identExtent 1 rest := by
  induction cs with
  | nil => simp
  | cons c cs ih =>
      simp only [List.mem_cons, not_or] at hopen hclose hline
      have hcs := ih hopen.2 hclose.2 hline.2
      simp only [List.cons_append, identExtent, Ne.symm hopen.1, Ne.symm hclose.1,
        Ne.symm hline.1, if_false, hcs, List.length_cons]
      omega

theorem startsWord_of_isTemplateChar {c : Char} (hc : isTemplateChar c = true)
    (hdigit : c.isDigit = false) (hpoint : c ≠ '.') : startsWord c = true := by
  simp [startsWord, isIdentChar_of_isTemplateChar hc, hdigit, hpoint]

theorem identExtent_chars (h : name.IsValid) {rest : List Char} (hrest : Separates rest) :
    identExtent 0 (name.chars ++ rest) = name.chars.length := by
  have htemplate : ∀ c ∈ name.template.toList, isIdentChar c = true := by
    intro c hc
    exact isIdentChar_of_isTemplateChar (h.template_chars c hc)
  by_cases hkey : name.key = []
  · rw [chars, if_pos hkey, identExtent_append htemplate, hrest.identExtent_eq_zero, Nat.add_zero]
  · have hkeyExtent := identExtent_brackets
      (h.joined_ne_of_not_char (c := '[') (by decide) (by decide))
      (h.joined_ne_of_not_char (c := ']') (by decide) (by decide))
      (h.joined_ne_of_not_char (c := '\n') (by decide) (by decide)) (']' :: rest)
    have hclose : identExtent 1 (']' :: rest) = 1 := by
      simp [identExtent, hrest.identExtent_eq_zero]
    have hopen (cs : List Char) : identExtent 0 ('[' :: cs) = 1 + identExtent 1 cs := by
      simp [identExtent]
    rw [chars_eq_of_key_ne_nil hkey, List.append_assoc, identExtent_append htemplate,
      List.cons_append, List.append_assoc, List.singleton_append, hopen, hkeyExtent, hclose]
    simp only [List.length_append, List.length_cons, List.length_nil]
    omega

/-- A valid name is a single token. -/
theorem spells (h : name.IsValid) : Spells name.chars [ident name.chars] := by
  obtain ⟨c, cs, hcons, hdigit, hpoint⟩ := h.template_starts
  have hstarts : startsWord c = true :=
    startsWord_of_isTemplateChar (h.template_chars c (hcons ▸ List.mem_cons_self)) hdigit hpoint
  obtain ⟨behind, hchars⟩ : ∃ behind, name.chars = c :: behind := by
    rw [chars, hcons]
    split
    · exact ⟨_, rfl⟩
    · exact ⟨_, rfl⟩
  have hextent {rest : List Char} (hrest : Separates rest) := h.identExtent_chars hrest
  rw [hchars] at hextent ⊢
  exact spells_ident hstarts fun rest hrest => hextent hrest

/-- A valid name is none of the words with a meaning of their own. -/
theorem asciiLower_not_mem_reservedWords (h : name.IsValid) :
    asciiLower name.text ∉ reservedWords := by
  by_cases hkey : name.key = []
  · have hreserved := h.not_reserved hkey
    have htext : name.text = name.template := by
      rw [text, chars, if_pos hkey, String.ofList_toList]
    rw [htext]
    intro hmem
    rw [isReserved, List.contains_eq_mem, decide_eq_true hmem] at hreserved
    exact Bool.noConfusion hreserved
  · have hbracket : '[' ∈ (asciiLower name.text).toList := by
      rw [asciiLower, text, chars_eq_of_key_ne_nil hkey]
      simp only [String.toList_ofList, List.map_append, List.map_cons, List.mem_append,
        List.mem_cons]
      exact .inr (.inl rfl)
    have hnone : ∀ word ∈ reservedWords, '[' ∉ word.toList := by decide
    intro hmem
    exact hnone _ hmem hbracket

end IsValid

end Name

theorem SectionKeyword.ofWord?_eq_none {word : String} (h : word ∉ Name.reservedWords) :
    SectionKeyword.ofWord? word = none := by
  unfold SectionKeyword.ofWord?
  split <;> first | rfl | exact absurd (by decide) h

theorem SectionKeyword.ofWords?_eq_none {word : String} (h : word ∉ Name.reservedWords)
    (next : String) : SectionKeyword.ofWords? word next = none := by
  unfold SectionKeyword.ofWords?
  split <;> first | rfl | exact absurd (by decide) h

end LinearProgram
