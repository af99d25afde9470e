import Stencil.Escape

/-!
# Escaped text

Escaping leaves no character in a text that could open or close markup. Angle brackets and quotes
are gone, and an ampersand that is left is the first character of an entity. Nothing is lost: when
every entity gives way to its character again, the text is what it was before.

## Main results

* `Escape.not_isMarkup_of_mem_escapeHtml`: no angle bracket and no quote is left.
* `Escape.exists_entity_of_ampersand`: an ampersand starts an entity.
* `Escape.unescapeHtml_escapeHtml`: putting the characters back undoes the escaping.
-/

namespace Stencil.Escape

/-- The characters that have an entity, each with its entity. -/
def entities : List (Char × List Char) :=
  [('&', "&amp;".toList), ('<', "&lt;".toList), ('>', "&gt;".toList), ('\'', "&#39;".toList),
    ('"', "&quot;".toList)]

/-- Is the character an angle bracket or a quote? -/
def isMarkup (c : Char) : Bool := c == '<' || c == '>' || c == '\'' || c == '"'

/-- The text with characters in place of their entities, from left to right. -/
def unescapeHtml (text : List Char) : List Char :=
  match text with
  | [] => []
  | c :: rest =>
      match entities.find? fun entry => entry.2.isPrefixOf (c :: rest) with
      | some (special, written) => special :: unescapeHtml (rest.drop (written.length - 1))
      | none => c :: unescapeHtml rest
termination_by text.length
decreasing_by
  all_goals
    simp only [List.length_cons, List.length_drop]
    omega

/-- A character is replaced by its entity or stays. -/
theorem entity_eq (c : Char) :
    (c, entity c) ∈ entities ∨ (entity c = [c] ∧ isMarkup c = false ∧ c ≠ '&') := by
  unfold entity
  split <;> first
    | exact Or.inl (by decide)
    | skip
  rename_i hAmp hLess hGreater hApostrophe hQuote
  refine Or.inr ⟨rfl, ?_, fun h => hAmp h⟩
  simp only [isMarkup, Bool.or_eq_false_iff, beq_eq_false_iff_ne]
  exact ⟨⟨⟨hLess, hGreater⟩, hApostrophe⟩, hQuote⟩

/-! ## Markup -/

theorem not_isMarkup_of_mem_entities :
    ∀ entry ∈ entities, ∀ c ∈ entry.2, isMarkup c = false := by simp [entities, isMarkup]

/-- An escaped text holds no angle bracket and no quote. -/
theorem not_isMarkup_of_mem_escapeHtml {text : List Char} {c : Char}
    (h : c ∈ escapeHtml text) : isMarkup c = false := by
  obtain ⟨d, _, hMem⟩ := List.mem_flatMap.1 h
  rcases entity_eq d with hEntity | ⟨hSame, hPlain, _⟩
  · exact not_isMarkup_of_mem_entities _ hEntity c hMem
  · rw [hSame, List.mem_singleton] at hMem
    rwa [hMem]

/-! ## Ampersands -/

theorem ampersand_not_mem_tail :
    ∀ entry ∈ entities, '&' ∉ entry.2.tail ∧ entry.2.head? = some '&' := by decide

/-- Inside what a character is replaced by, an ampersand can only be the first character. -/
theorem eq_nil_of_entity_eq {c : Char} {before after : List Char}
    (h : entity c = before ++ '&' :: after) : before = [] ∧ (c, entity c) ∈ entities := by
  rcases entity_eq c with hEntity | ⟨hSame, _, hNot⟩
  · refine ⟨?_, hEntity⟩
    cases before with
    | nil => rfl
    | cons d others =>
        refine absurd ?_ (ampersand_not_mem_tail _ hEntity).1
        show '&' ∈ (entity c).tail
        rw [h]
        exact List.mem_append_right _ (List.mem_cons_self ..)
  · rw [hSame, List.singleton_eq_append_iff] at h
    rcases h with ⟨rfl, hTail⟩ | ⟨_, hTail⟩
    · exact absurd (List.cons.inj hTail).1.symm hNot
    · cases hTail

/-- An ampersand in an escaped text is the first character of an entity. -/
theorem exists_entity_of_ampersand {text before after : List Char}
    (h : escapeHtml text = before ++ '&' :: after) :
    ∃ entry ∈ entities, entry.2 <+: '&' :: after := by
  induction text generalizing before with
  | nil => exact absurd h.symm (by simp [escapeHtml])
  | cons c rest ih =>
      have hSplit : entity c ++ escapeHtml rest = before ++ '&' :: after := h
      rcases List.append_eq_append_iff.1 hSplit with ⟨middle, _, hRest⟩ | ⟨middle, hFirst, hRest⟩
      · exact ih hRest
      · cases middle with
        | nil =>
            have hTail : escapeHtml rest = [] ++ '&' :: after := hRest.symm
            exact ih hTail
        | cons d others =>
            obtain ⟨rfl, hRest⟩ := List.cons.inj hRest
            obtain ⟨rfl, hEntity⟩ := eq_nil_of_entity_eq hFirst
            refine ⟨_, hEntity, escapeHtml rest, ?_⟩
            show entity c ++ escapeHtml rest = '&' :: after
            rw [hFirst, hRest]
            rfl

/-! ## The way back -/

/-- No entity starts with the entity of another character. -/
theorem find?_entities (rest : List Char) : ∀ entry ∈ entities,
    entities.find? (fun other => other.2.isPrefixOf (entry.2 ++ rest)) = some entry := by
  simp [entities, List.isPrefixOf]

theorem unescapeHtml_entity_append (c : Char) (rest : List Char) :
    unescapeHtml (entity c ++ rest) = c :: unescapeHtml rest := by
  rcases entity_eq c with hEntity | ⟨hSame, _, hNot⟩
  · have hHead := (ampersand_not_mem_tail _ hEntity).2
    have hFind := find?_entities rest _ hEntity
    obtain ⟨tail, hTail⟩ : ∃ tail, entity c = '&' :: tail := List.head?_eq_some_iff.1 hHead
    rw [hTail, List.cons_append] at hFind ⊢
    rw [unescapeHtml, hFind]
    simp
  · have hFind : entities.find? (fun entry => entry.2.isPrefixOf (c :: rest)) = none := by
      have hNe : ('&' == c) = false := beq_eq_false_iff_ne.2 hNot.symm
      simp [entities, List.isPrefixOf, hNe]
    rw [hSame, List.singleton_append, unescapeHtml, hFind]

/-- Escaping is undone by putting the characters back in place of their entities. -/
theorem unescapeHtml_escapeHtml (text : List Char) : unescapeHtml (escapeHtml text) = text := by
  induction text with
  | nil => rw [escapeHtml, List.flatMap_nil, unescapeHtml]
  | cons c rest ih =>
      show unescapeHtml (entity c ++ escapeHtml rest) = c :: rest
      rw [unescapeHtml_entity_append, ih]

end Stencil.Escape
