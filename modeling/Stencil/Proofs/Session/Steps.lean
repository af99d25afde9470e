import Stencil.Proofs.Alike.Calls
import Stencil.Proofs.Renaming.Bare
import Stencil.Proofs.Session

/-!
# Steps on what is alike

A step that is carried out twice, with values of earlier steps that are alike, ends alike. Where a
value comes from does not matter: the numbers of the earlier steps may differ.

## Main results

* `alike_run`: two steps that do the same end alike when what they use is alike.
-/

namespace Stencil

variable {p q : Pairing}

/-! ## Steps on what is alike -/

mutual

theorem rename_ofJson (ρ : Renaming) : ∀ document : Json,
    (Value.ofJson document).rename ρ = Value.ofJson document
  | .null => rfl
  | .bool _ => rfl
  | .int _ => rfl
  | .float _ => rfl
  | .string _ => rfl
  | .array items => by
      rw [Value.ofJson, Value.rename_ofList, map_rename_ofItems ρ items]
  | .object entries => by
      rw [Value.ofJson, Value.rename_ofEntries, rename_ofNamed ρ entries]

theorem map_rename_ofItems (ρ : Renaming) : ∀ items : List Json,
    (Value.ofItems items).map (Value.rename ρ) = Value.ofItems items
  | [] => rfl
  | item :: rest => by
      rw [Value.ofItems, List.map_cons, rename_ofJson ρ item, map_rename_ofItems ρ rest]

theorem rename_ofNamed (ρ : Renaming) : ∀ entries : List (String × Json),
    Entries.rename ρ (Value.ofNamed entries) = Value.ofNamed entries
  | [] => rfl
  | (name, item) :: rest => by
      rw [Value.ofNamed, Entries.rename_cons, rename_ofJson ρ item, rename_ofNamed ρ rest]

end

theorem alike_ofJson (document : Json) : Alike p (Value.ofJson document) (Value.ofJson document) :=
  (rename_ofJson _ document).trans (rename_ofJson _ document).symm

section Steps

variable {f : Nat → Nat} {endings others : List Ending}

/-- What the steps gave is alike what the steps gave that have other numbers. -/
def ResultsAlike (p : Pairing) (f : Nat → Nat) (endings others : List Ending)
    (references : List Nat) : Prop :=
  ∀ k ∈ references,
    Alike p ((Source.result k).value endings) ((Source.result (f k)).value others)

theorem ResultsAlike.mono {references : List Nat} (h : ResultsAlike p f endings others references)
    (hLe : p ≤ q) : ResultsAlike q f endings others references :=
  fun k hk => (h k hk).mono hLe

theorem ResultsAlike.subset {more references : List Nat}
    (h : ResultsAlike p f endings others more) (hSubset : references ⊆ more) :
    ResultsAlike p f endings others references :=
  fun k hk => h k (hSubset hk)

theorem alike_source (source : Source)
    (h : ResultsAlike p f endings others source.references) :
    Alike p (source.value endings) ((source.relabel f).value others) := by
  cases source with
  | data document => exact alike_ofJson document
  | result k => exact h k (List.mem_singleton_self k)

theorem alike_sources (sources : List Source)
    (h : ResultsAlike p f endings others (sources.flatMap Source.references)) :
    Alike p (sources.map (Source.value endings))
      ((sources.map (Source.relabel f)).map (Source.value others)) := by
  induction sources with
  | nil => exact .nil
  | cons source rest ih =>
      rw [List.flatMap_cons] at h
      have hSource := alike_source source (h.subset (List.subset_append_left ..))
      exact hSource.cons (ih (h.subset (List.subset_append_right ..)))

theorem alike_namedValues (named : List (String × Source))
    (h : ResultsAlike p f endings others ((named.map Prod.snd).flatMap Source.references)) :
    Alike p (Step.namedValues endings named)
      (Step.namedValues others (named.map fun entry => (entry.1, entry.2.relabel f))) := by
  induction named with
  | nil => exact .nil
  | cons entry rest ih =>
      rw [List.map_cons, List.flatMap_cons] at h
      have hName : Alike p entry.1 entry.1 := rfl
      have hSource := alike_source entry.2 (h.subset (List.subset_append_left ..))
      exact (hName.pair hSource).cons (ih (h.subset (List.subset_append_right ..)))

theorem alike_applyAll {I : Invariant} {configuration : List (Configuration Source)} {p : Pairing}
    (h : ResultsAlike p f endings others
      ((configuration.flatMap Step.configured).flatMap Source.references))
    {a b : Renderer Value} (hTwins : a.Twins p b) (hLeft : a.library.cache = none)
    (hRight : b.library.cache = none) :
    Run.Alike I p
      (Configuration.applyAll a (configuration.map (.map (Source.value endings))))
      (Configuration.applyAll b ((configuration.map (.map (Source.relabel f))).map
        (.map (Source.value others)))) := by
  induction configuration generalizing p a b with
  | nil => exact .pure (hTwins.alike hLeft hRight)
  | cons first rest ih =>
      rw [List.flatMap_cons, List.flatMap_append] at h
      have hFirst := h.subset (List.subset_append_left ..)
      have hRest := h.subset (List.subset_append_right ..)
      cases first with
      | layout name =>
          have hLayout : Alike p (⟨a.library, none⟩ : Renderer Value) ⟨b.library, none⟩ :=
            Renderer.Twins.alike ⟨hTwins.root, hTwins.globals, hTwins.escape, hTwins.exposedAs, rfl⟩
              hLeft hRight
          exact ih hRest ⟨hTwins.root, hTwins.globals, hTwins.escape, hTwins.exposedAs,
            congrArg (fun r : Renderer Value => some (⟨name, r.library⟩ : Layout Value)) hLayout⟩
            hLeft hRight
      | escape filter =>
          exact ih hRest ⟨hTwins.root, hTwins.globals, rfl, hTwins.exposedAs, hTwins.layout⟩ hLeft
            hRight
      | exposeAs name =>
          exact ih hRest ⟨hTwins.root, hTwins.globals, hTwins.escape, rfl, hTwins.layout⟩ hLeft
            hRight
      | «global» name source =>
          have hSource := alike_source source (hFirst.subset (by simp [Step.configured]))
          have hStep : Run.Alike I p
              (Run.settle (source.value endings) >>= fun value => Configuration.applyAll
                { a with library := { a.library with
                  globals := Entries.insert name value a.library.globals } }
                (rest.map (.map (Source.value endings))))
              (Run.settle ((source.relabel f).value others) >>= fun value =>
                Configuration.applyAll
                  { b with library := { b.library with
                    globals := Entries.insert name value b.library.globals } }
                  ((rest.map (.map (Source.relabel f))).map (.map (Source.value others)))) :=
            (Run.Alike.settle hSource).bind fun q hq value value' hValue => by
              have hTwins := ((hTwins.alike hLeft hRight).mono hq).renderer
              exact ih (hRest.mono hq) ⟨hTwins.root, hTwins.globals.insert name hValue,
                hTwins.escape, hTwins.exposedAs, hTwins.layout⟩ hLeft hRight
          exact hStep

/-- Calls and attributes at the top level are alike, when data is told apart on both sides. -/
theorem alike_standard (hExact : p.exact = true)
    (hRoot : p.frame Store.builtinFrame = some Store.builtinFrame) :
    Services.standard.Alike .unremembered p :=
  have hFiles : p.FollowsFiles := fun _ _ _ _ _ => Or.inl hExact
  alike_services (fun _ hAlike => resolveAlike_unremembered hAlike hFiles hRoot) callLimit

/-- Two steps that do the same end alike when what they use is alike. -/
theorem alike_run (hExact : p.exact = true)
    (hRoot : p.frame Store.builtinFrame = some Store.builtinFrame) (step : Step)
    (h : ResultsAlike p f endings others step.references) :
    Run.Alike .unremembered p (step.run endings) ((step.relabel f).run others) := by
  have hText (text : String) : p.FollowsText text := fun _ _ => Or.inl hExact
  have hServices := alike_standard hExact hRoot
  cases step with
  | keep document => exact .settle (alike_ofJson document)
  | compile text name globals escape =>
      refine (alike_compile hServices (hText text) name
        (alike_namedValues globals h) hRoot escape).bind
        fun q hq template template' hTemplate => .settle ?_
      show Value.rename q.left _ = Value.rename q.right _
      rw [Value.rename_template, Value.rename_template]
      exact congrArg (fun t => Value.template t none) hTemplate
  | library root configuration =>
      -- Setting up takes a memory that is given back at once, and both sides take one.
      intro q hq s t hStores
      let fresh (store : Store) : Renderer Value :=
        ⟨⟨root, [], none, none, none, store.counters.size⟩, none⟩
      let after (store : Store) : Store :=
        { store with caches := store.caches.push [], counters := store.counters.push 0 }
      have hFresh : (fresh s).Twins q (fresh t) := ⟨rfl, .nil, rfl, rfl, rfl⟩
      have hRest : Run.Alike .unremembered q
          (Configuration.applyAll (fresh s) (configuration.map (.map (Source.value endings))) >>=
            fun renderer => Run.settle (.renderer renderer none))
          (Configuration.applyAll (fresh t) ((configuration.map (.map (Source.relabel f))).map
            (.map (Source.value others))) >>= fun renderer =>
              Run.settle (.renderer renderer none)) :=
        (alike_applyAll (h.mono hq) hFresh rfl rfl).bind
          fun _ _ _ _ hRenderer => .settle hRenderer.ofRenderer
      have hStores' : StoresAlike .unremembered q (after s) (after t) :=
        ⟨hStores.root, hStores.frames, hStores.marks, hStores.newFrames, hStores.newMarks,
          hStores.holds⟩
      exact hRest q le_rfl (after s) (after t) hStores'
  | call target field positional named =>
      have hAll : ResultsAlike p f endings others (target.references ++
          positional.flatMap Source.references ++
          (named.map Prod.snd).flatMap Source.references) := by
        refine h.subset ?_
        simp [Step.references, Step.sources]
      have hTarget := alike_source target (hAll.subset (by simp))
      have hPositional := alike_sources positional (hAll.subset (by simp))
      have hNamed := alike_namedValues named (hAll.subset (by simp))
      have hCallee : Run.Alike .unremembered p (Step.callee (target.value endings) field)
          (Step.callee ((target.relabel f).value others) field) := by
        cases field with
        | none => exact .pure hTarget
        | some name => exact hServices.access p le_rfl _ _ hTarget name
      refine hCallee.bind fun q hq function function' hFunction => ?_
      have hArguments : Alike q
          (⟨positional.map (Source.value endings), Step.namedValues endings named⟩ : Arguments)
          ⟨(positional.map (Source.relabel f)).map (Source.value others),
            Step.namedValues others (named.map fun entry => (entry.1, entry.2.relabel f))⟩ :=
        congrArg₂ Arguments.mk (hPositional.mono hq) (hNamed.mono hq)
      exact (hServices.call q hq _ _ _ _ hFunction hArguments).bind
        fun _ _ _ _ hResult => .settle hResult

end Steps

end Stencil
