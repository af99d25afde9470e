import Stencil.Proofs.Screens.Calls
import Stencil.Proofs.Session.Isolated
import Stencil.Proofs.Unread.Runs

/-!
# Sessions without a name

A text that does not read a name may as well be compiled without the globals of that name. A session
in which that is done is compared with the one in which it is not, through a third store between
them. On the left is its twin: it has the numbers of the left one, and no values of the name in the
shade. On the right is a store that is alike: the values that were left out have no numbers there.

## Main results

* `State.Clears.advance`: steps that keep the states together.
* `State.Clears.compile`: a text that does not read the name is compiled without its globals.
* `State.Clears.runAll`: all other steps keep the states together.
-/

namespace Stencil

variable {name : String} {shade : Shade} {endings : List Ending}

/-! ## Leaving globals out -/

namespace Run.Alike

variable {I : Invariant} {p : Pairing} {α : Type} [Renamable α]

/-- A value may be given its marks on the left alone. -/
theorem settleLeft (value : Value) {next next' : Run α} (h : Run.Alike I p next next') :
    Run.Alike I p (do let _ ← Run.settle value; next) next' := by
  intro q hq s t hStores
  refine h q hq { s with nextMark := (value.settle s.nextMark).2 } t ?_
  have hMarks : s.nextMark ≤ (value.settle s.nextMark).2 := by
    rw [Value.settle_snd]
    exact Nat.le_add_right ..
  exact hStores.change le_rfl rfl rfl rfl (fun _ _ => rfl) hStores.frames
    (fun m n hMark => ⟨Nat.lt_of_lt_of_le (hStores.marks m n hMark).1 hMarks,
      (hStores.marks m n hMark).2⟩) ⟨Nat.le_refl _, hMarks⟩ ⟨Nat.le_refl _, Nat.le_refl _⟩

/-- Variables of a name are left out, or are not there. -/
theorem defineOthers {i j : FrameId} (hPair : p.frame j = some i) (hOpen : ¬ p.isSealed i)
    {entries others : List (String × Value)}
    (h : Stencil.Alike p (entries.filter (·.1 ≠ name)) others) :
    Run.Alike I p (Run.defineOthers name i entries) (Run.defineAll j others) := by
  induction entries generalizing p others with
  | nil =>
      cases others with
      | nil => exact pure rfl
      | cons other others => cases h
  | cons entry rest ih =>
      obtain ⟨key, value⟩ := entry
      rw [Run.defineOthers]
      split
      · rename_i hKey
        subst hKey
        rw [List.filter_cons_of_neg (by simp)] at h
        exact (ih hPair hOpen h).settleLeft value
      · rename_i hKey
        rw [List.filter_cons_of_pos (by simpa using hKey)] at h
        cases others with
        | nil => cases h
        | cons other others =>
            obtain ⟨hEntry, hRest⟩ := List.cons.inj h
            have hEntry : Stencil.Alike p (key, value) other := hEntry
            have hName : key = other.1 := hEntry.fst
            rw [Run.defineAll, ← hName]
            refine (define (I := I) hPair hOpen key hEntry.snd).bind fun q hq _ _ _ => ?_
            exact ih (hq.frame i j hPair) (fun hSealed => hOpen (hq.stays i j hPair hSealed))
              (Stencil.Alike.mono hRest hq)

end Run.Alike

/-- Compiles a text without the globals of a name, whose values get their marks all the same. -/
def Template.compileOthers (name text fileName : String) (globals : List (String × Value))
    (escape : Option Escape) : Run (Template Value) :=
  match Program.read (normalizeText text.toList) with
  | .error fault => Run.fail (.malformed fileName fault)
  | .ok program => do
      let frame ← Run.openFrame Store.builtinFrame
      Run.defineOthers name frame globals
      let defaults ← evaluateDefaults .standard ⟨frame, [], escape.getD (.ofName fileName)⟩ .empty
        program.parameters
      return ⟨fileName, program, defaults, escape.getD (.ofName fileName), frame⟩

/-! ## What the steps gave -/

/-- What the steps gave may be come across. -/
def Ready (name : String) (shade : Shade) (endings : List Ending) : Prop :=
  ∀ value, .ok value ∈ endings → (View.shade name).Passes shade value

namespace Ready

theorem mono {after : Shade} (hLe : shade ≤ after) (h : Ready name shade endings) :
    Ready name after endings :=
  fun value hValue => View.passes_mono hLe (h value hValue)

theorem source (h : Ready name shade endings) (source : Source) :
    (View.shade name).Passes shade (source.value endings) := by
  cases source with
  | data document => exact (rename_ofJson _ document).trans (rename_ofJson _ document).symm
  | result step =>
      show (View.shade name).Passes shade ((endings[step]?.bind Except.toOption).getD .none)
      cases hEnding : endings[step]? with
      | none => rfl
      | some ending =>
          cases ending with
          | error stop => rfl
          | ok value => exact h value (List.mem_of_getElem? hEnding)

theorem sources (h : Ready name shade endings) (sources : List Source) :
    (View.shade name).Passes shade (sources.map (Source.value endings)) := by
  induction sources with
  | nil => exact .nil
  | cons source rest ih => exact (h.source source).cons ih

theorem namedValues (h : Ready name shade endings) (named : List (String × Source)) :
    (View.shade name).Passes shade (Step.namedValues endings named) := by
  induction named with
  | nil => exact .nil
  | cons entry rest ih =>
      have hName : (View.shade name).Passes shade entry.1 := rfl
      exact (hName.pair (h.source entry.2)).cons ih

end Ready

/-! ## Steps -/

namespace Step

open Run

/-- A step matches itself. -/
theorem matches_run (h : Ready name shade endings) (step : Step) :
    Matches name shade (step.run endings) (step.run endings) := by
  have rules := matches_rules name
  have hServices := rules.services callLimit
  cases step with
  | keep document => exact rules.settle (h.source (.data document))
  | compile text fileName globals escape =>
      refine rules.bind (rules.compile hServices text fileName (h.namedValues globals) escape)
        fun after _ template hTemplate => rules.settle (hTemplate.ofTemplateValue none)
  | library root configuration =>
      refine rules.bind (rules.newRenderer (fun _ _ => Matches.newCounter) fun _ _ _ _ => trivial)
        fun w₁ h₁ renderer hRenderer => ?_
      refine rules.bind (rules.withCache hRenderer (fun _ _ _ _ => trivial) false)
        fun w₂ h₂ renderer hRenderer => ?_
      refine rules.bind (rules.applyAll (fun said hSaid key value hGlobal => ?_) hRenderer)
        fun w₃ h₃ renderer hRenderer => rules.settle (hRenderer.ofRenderer none)
      obtain ⟨entry, -, hEntry⟩ := List.mem_map.1 hSaid
      cases entry <;> cases hEntry <;> cases hGlobal
      exact (h.mono (h₁.trans h₂)).source _
  | call target field positional named =>
      have hCallee : Matches name shade (callee (target.value endings) field)
          (callee (target.value endings) field) := by
        cases field with
        | none => exact rules.pure (h.source target)
        | some key => exact hServices.access _ _ key (h.source target)
      refine rules.bind hCallee fun w₁ h₁ function hFunction => ?_
      have hArguments := ((h.mono h₁).sources positional).mkArguments
        ((h.mono h₁).namedValues named)
      exact rules.bind (hServices.call _ _ _ hFunction hArguments)
        fun w₂ h₂ result hResult => rules.settle hResult

/-- A text that does not read the name is compiled without the globals of that name. -/
theorem matches_compileOthers (h : Ready name shade endings) {text : String}
    (hName : ∀ program, Program.read (normalizeText text.toList) = .ok program →
      name ∉ program.reads) (fileName : String) (globals : List (String × Source))
    (escape : Option Escape) :
    Matches name shade
      (Template.compile .standard text fileName (namedValues endings globals) escape)
      (Template.compileOthers name text fileName (namedValues endings globals) escape) := by
  have rules := matches_rules name
  rw [Template.compile_eq, Template.compileOthers]
  cases hRead : Program.read (normalizeText text.toList) with
  | error fault => exact rules.fail _
  | ok program =>
      have hDark := (shade.shaded_grow_known True).2 trivial
      have hGlobals := (h.mono (shade.le_grow True)).namedValues globals
      refine Matches.inNewFrame shade.builtins.1 True (fun _ => trivial) ?_
      refine (Matches.defineOthers hDark (Nat.lt_succ_self _) hGlobals).bind fun after hLe _ _ => ?_
      refine rules.finish (rules.services callLimit) ⟨?_, fun key hKey _ hSame => ?_⟩ _ _
      · exact Nat.lt_of_lt_of_le (Nat.lt_succ_self _) hLe.1
      · exact hName program hRead (hSame ▸ hKey)

end Step

/-- A text is compiled without the globals of a name, or they are not there. -/
theorem alike_compileOthers {p : Pairing} (hExact : p.exact = true)
    (hRoot : p.frame Store.builtinFrame = some Store.builtinFrame) (text fileName : String)
    {globals others : List (String × Value)} (h : Alike p (globals.filter (·.1 ≠ name)) others)
    (escape : Option Escape) :
    Run.Alike .unremembered p (Template.compileOthers name text fileName globals escape)
      (Template.compile .standard text fileName others escape) := by
  rw [Template.compile_eq, Template.compileOthers]
  cases Program.read (normalizeText text.toList) with
  | error fault => exact .fail _
  | ok program =>
      refine .inNewFrame hRoot fun q hq i j hPair hOpen => ?_
      refine (Run.Alike.defineOthers hPair hOpen (h.mono hq)).bind fun r hr _ _ _ => ?_
      have hpr := hq.trans hr
      exact alike_finish ((alike_standard hExact hRoot).mono hpr) (Or.inl (hpr.exact.trans hExact))
        (hr.frame i j hPair) fileName _

/-! ## States -/

theorem Alike.append {α : Type} [Renamable α] {p : Pairing} {xs ys others rest : List α}
    (h : Alike p xs ys) (hRest : Alike p others rest) : Alike p (xs ++ others) (ys ++ rest) :=
  (h.pair hRest).apply (f := fun lists => lists.1 ++ lists.2)
    fun _ _ _ => (List.map_append ..).symm

theorem Source.relabel_id : Source.relabel id = id := by
  funext source
  cases source <;> rfl

theorem Step.relabel_id (step : Step) : step.relabel id = step := by
  cases step with
  | keep document => rfl
  | compile text fileName globals escape => simp [Step.relabel, Source.relabel_id]
  | library root configuration =>
      have hMap : (Configuration.map id : Configuration Source → Configuration Source) = id := by
        funext first
        cases first <;> rfl
      simp [Step.relabel, Source.relabel_id, hMap]
  | call target field positional named => simp [Step.relabel, Source.relabel_id]

/-- What steps gave that ended alike is alike. -/
theorem resultsAlike_id {p : Pairing} {endings others : List Ending} (h : Alike p endings others)
    (references : List Nat) : ResultsAlike p id endings others references := fun k _ =>
  h.apply (f := fun endings => (endings[k]?.bind Except.toOption).getD Value.none)
      fun ρ _ endings => by
    show ((endings.map (Renamable.rename ρ))[k]?.bind Except.toOption).getD .none =
      ((endings[k]?.bind Except.toOption).getD Value.none).rename ρ
    rw [List.getElem?_map]
    rcases endings[k]? with _ | _ | value
    · rfl
    · rfl
    · rfl

namespace Session.State

variable {setting : Setting} {state clear : State}

/-- A state belongs together with one in which a name was left out: in between is a store that is a
twin of the left one, and alike the right one. -/
def Clears (name : String) (setting : Setting) (state clear : State) : Prop :=
  ∃ shade middle p, state.store.Twins name shade middle ∧ Ready name shade state.endings ∧
    p.setting = setting ∧ p.exact = true ∧ StoresAlike .unremembered p middle clear.store ∧
    Alike p state.endings clear.endings

namespace Clears

/-- Nothing is left out at the start. -/
theorem initial (name : String) (setting : Setting) :
    State.initial.Clears name setting .initial :=
  ⟨.initial, .initial, _, .initial name, nofun, rfl, rfl, Links.storesAlike_initial setting, .nil⟩

/-- Two steps keep the states together if a third run matches the left one and is alike the right
one. -/
theorem advance (h : state.Clears name setting clear) {step other : Step}
    (hStep : ∀ shade p, Ready name shade state.endings → p.exact = true →
      p.frame Store.builtinFrame = some Store.builtinFrame → Alike p state.endings clear.endings →
      ∃ middle, Run.Matches name shade (step.run state.endings) middle ∧
        Run.Alike .unremembered p middle (other.run clear.endings)) :
    (state.advance setting step).Clears name setting (clear.advance setting other) := by
  obtain ⟨shade, between, p, hTwins, hReady, rfl, hExact, hStores, hEndings⟩ := h
  obtain ⟨middle, hMatches, hAlike⟩ := hStep shade p hReady hExact hStores.root hEndings
  obtain ⟨after, hLe, hSame, hTwins', hPasses⟩ := hMatches.perform p.setting hTwins
  obtain ⟨q, hq, hStores', hEnding⟩ := hAlike.perform hStores
  rw [hSame] at hEnding
  refine ⟨after, _, q, hTwins', ?_, hq.setting, hq.exact.trans hExact, hStores', ?_⟩
  · intro value hValue
    rcases List.mem_append.1 hValue with hValue | hValue
    · exact hReady.mono hLe value hValue
    · exact hPasses value (List.mem_singleton.1 hValue).symm
  · exact (hEndings.mono hq).append (hEnding.cons .nil)

/-- All steps keep the states together that are the same for both. -/
theorem runAll (h : state.Clears name setting clear) (steps : List Step) :
    (steps.foldl (State.advance setting) state).Clears name setting
      (steps.foldl (State.advance setting) clear) := by
  induction steps generalizing state clear with
  | nil => exact h
  | cons step rest ih =>
      refine ih (h.advance fun shade p hReady hExact hRoot hEndings => ?_)
      have hAlike := alike_run hExact hRoot step (resultsAlike_id hEndings _)
      rw [Step.relabel_id] at hAlike
      exact ⟨step.run state.endings, Step.matches_run hReady step, hAlike⟩

/-- A text that does not read the name is compiled without the globals of the name. -/
theorem compile (h : state.Clears name setting clear) {text : String}
    (hName : ∀ program, Program.read (normalizeText text.toList) = .ok program →
      name ∉ program.reads) (fileName : String) (globals : List (String × Source))
    (escape : Option Escape) :
    (state.advance setting (.compile text fileName globals escape)).Clears name setting
      (clear.advance setting
        (.compile text fileName (globals.filter (·.1 ≠ name)) escape)) := by
  refine h.advance fun shade p hReady hExact hRoot hEndings => ?_
  refine ⟨Template.compileOthers name text fileName (Step.namedValues state.endings globals) escape
    >>= fun template => Run.settle (.template template none), ?_, ?_⟩
  · exact (Step.matches_compileOthers hReady hName fileName globals escape).bind
      fun after _ template hTemplate =>
        (Run.matches_rules name).settle (hTemplate.ofTemplateValue none)
  · have hGlobals := alike_namedValues (globals.filter (·.1 ≠ name)) (resultsAlike_id hEndings _)
    have hFilter : (Step.namedValues state.endings globals).filter (·.1 ≠ name) =
        Step.namedValues state.endings (globals.filter (·.1 ≠ name)) := by
      unfold Step.namedValues
      rw [List.filter_map]
      rfl
    simp only [Source.relabel_id, id, List.map_id', ← hFilter] at hGlobals
    refine (alike_compileOthers hExact hRoot text fileName hGlobals escape).bind
      fun q hq template template' hTemplate => .settle ?_
    show Value.rename q.left _ = Value.rename q.right _
    rw [Value.rename_template, Value.rename_template]
    exact congrArg (fun t => Value.template t none) hTemplate

/-- The steps end in the same way. -/
theorem endings_bare_eq (h : state.Clears name setting clear) :
    state.endings.map Ending.bare = clear.endings.map Ending.bare := by
  obtain ⟨-, -, p, -, -, -, -, -, hEndings⟩ := h
  generalize state.endings = endings, clear.endings = others at hEndings
  induction endings generalizing others with
  | nil =>
      cases others with
      | nil => rfl
      | cons other others => cases hEndings
  | cons ending rest ih =>
      cases others with
      | nil => cases hEndings
      | cons other others =>
          have hFirst : Alike p ending other := (List.cons.inj hEndings).1
          exact congrArg₂ List.cons hFirst.ending_bare_eq (ih others (List.cons.inj hEndings).2)

end Clears

end Session.State

end Stencil
