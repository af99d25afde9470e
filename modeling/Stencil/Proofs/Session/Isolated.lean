import Stencil.Proofs.Session.Steps

/-!
# Runs do not disturb each other

Some steps of one session can be found again in another one: each has a step there that does the
same with the values that the steps it refers to have there. Other steps may come between them in
either session, and those that are found again may come in any order. They end in the same way.

The proof goes through the left session step by step. It keeps links from the frames and marks of
the right session to those of the left one, made by the steps that were found again so far. At every
point of the right session, the links up to there pair the two stores. A step that is found again is
carried out on such stores, and adds the links of its new frames and marks.

What a run changes are the variables of its own frame and of frames that it has opened; evaluating
an expression changes no frame that was there. So a step of a session ends in the same way whatever
other steps come before it, between it and the steps that it refers to, or after it.

## Main results

* `Session.Matching.endings_alike`: steps that are found again end alike.
* `runs_are_isolated`: what runs change, and that other steps do not matter.
-/

namespace Stencil

/-! ## Links -/

/-- One-to-one links from numbers of the right session to numbers of the left one. -/
structure Link where
  target : Nat → Option Nat
  inj : ∀ i j k, target j = some i → target k = some i → j = k

namespace Link

/-- The links of the numbers below a bound. -/
def below (l : Link) (bound : Nat) : Link where
  target j := if j < bound then l.target j else none
  inj i j k hj hk := by
    rw [Option.ite_none_right_eq_some] at hj hk
    exact l.inj i j k hj.2 hk.2

theorem target_below {l : Link} {bound i j : Nat} :
    (l.below bound).target j = some i ↔ j < bound ∧ l.target j = some i := by
  simp only [below, Option.ite_none_right_eq_some]

/-- The links with more links, all of them from numbers between the bounds. -/
structure Adds (l : Link) (more : Nat → Option Nat) (low high : Nat) (all : Link) : Prop where
  keep : ∀ i j, l.target j = some i → all.target j = some i
  add : ∀ i j, more j = some i → all.target j = some i
  cases : ∀ i j, all.target j = some i →
    l.target j = some i ∨ (low ≤ j ∧ j < high ∧ more j = some i)

/-- Links from new numbers to new numbers can be added. -/
theorem exists_adds (l : Link) (more : Nat → Option Nat) (low high floor : Nat)
    (hInj : ∀ i j k, more j = some i → more k = some i → j = k)
    (hOld : ∀ i j, l.target j = some i → i < floor)
    (hFree : ∀ j, low ≤ j → j < high → l.target j = none)
    (hMore : ∀ i j, more j = some i →
      j < high ∧ (l.target j = some i ∨ (low ≤ j ∧ floor ≤ i))) :
    ∃ all : Link, l.Adds more low high all := by
  have hRange (i j : Nat) (hj : more j = some i) (hl : l.target j ≠ some i) :
      low ≤ j ∧ j < high ∧ floor ≤ i := by
    obtain ⟨hHigh, hl' | hNew⟩ := hMore i j hj
    · exact absurd hl' hl
    · exact ⟨hNew.1, hHigh, hNew.2⟩
  refine ⟨⟨fun j => if low ≤ j ∧ j < high then more j else l.target j,
    fun i j k hj hk => ?_⟩, ?_, ?_, ?_⟩
  · split at hj <;> split at hk
    · exact hInj i j k hj hk
    · rename_i hIn _
      have hFloor := (hRange i j hj (by rw [hFree j hIn.1 hIn.2]; simp)).2.2
      have hLess := hOld i k hk
      omega
    · rename_i _ hIn
      have hFloor := (hRange i k hk (by rw [hFree k hIn.1 hIn.2]; simp)).2.2
      have hLess := hOld i j hj
      omega
    · exact l.inj i j k hj hk
  · intro i j hj
    show (if low ≤ j ∧ j < high then more j else l.target j) = some i
    rw [if_neg, hj]
    intro hIn
    rw [hFree j hIn.1 hIn.2] at hj
    cases hj
  · intro i j hj
    show (if low ≤ j ∧ j < high then more j else l.target j) = some i
    split
    · exact hj
    · rename_i hOut
      by_contra hl
      exact hOut ⟨(hRange i j hj hl).1, (hRange i j hj hl).2.1⟩
  · intro i j hj
    have hj : (if low ≤ j ∧ j < high then more j else l.target j) = some i := hj
    split at hj
    · rename_i hIn
      exact Or.inr ⟨hIn.1, hIn.2, hj⟩
    · exact Or.inl hj

end Link

/-- Links of the frames and of the marks. -/
structure Links where
  frame : Link
  mark : Link

namespace Links

/-- The links of the frames and marks that are in a store. -/
def upTo (l : Links) (store : Store) : Links :=
  ⟨l.frame.below store.frames.next, l.mark.below store.nextMark⟩

/-- The pairing of two stores by links, to which only new frames and marks may be added. -/
def pairing (l : Links) (setting : Setting) (s t : Store) : Pairing where
  setting := setting
  exact := true
  frame := l.frame.target
  mark := l.mark.target
  isSealed _ := False
  memory _ _ _ := False
  mayFrame i j := l.frame.target j = some i ∨ (s.frames.next ≤ i ∧ t.frames.next ≤ j)
  mayMark m n := l.mark.target n = some m ∨ (s.nextMark ≤ m ∧ t.nextMark ≤ n)
  mark_inj m n k := l.mark.inj k m n
  frame_inj i j k hj hk := Or.inr (l.frame.inj i j k hj hk)
  paired _ hFalse := hFalse.elim
  frame_may _ _ hFrame := Or.inl hFrame
  mark_may _ _ hMark := Or.inl hMark

/-- The pairing of two stores by the links up to there. -/
abbrev between (l : Links) (setting : Setting) (s t : Store) : Pairing :=
  (l.upTo t).pairing setting s t

/-- A pairing without anything sealed or remembered is extended by links that have its frames and
marks. -/
theorem extends_pairing {p : Pairing} {l : Links} {setting : Setting} (s t : Store)
    (hSetting : p.setting = setting) (hExact : p.exact = true)
    (hHolds : (∀ c library layout, ¬ p.memory c library layout) ∧ ∀ i, ¬ p.isSealed i)
    (hFrame : ∀ i j, p.frame j = some i → l.frame.target j = some i)
    (hMark : ∀ m n, p.mark n = some m → l.mark.target n = some m) :
    p.Extends (l.pairing setting s t) :=
  ⟨hSetting.symm, hExact.symm, hFrame, hMark, fun i hTrue => (hHolds.2 i hTrue).elim,
    fun c library layout hTrue => (hHolds.1 c library layout hTrue).elim⟩

/-- Stores are paired by links when each link pairs frames or marks of earlier stores that belong
together. -/
theorem storesAlike_of_parts {l : Links} {setting : Setting} {s t : Store}
    (hRoot : l.frame.target Store.builtinFrame = some Store.builtinFrame)
    (hFrames : ∀ i j, l.frame.target j = some i → ∃ p x y, StoresAlike .unremembered p x y ∧
      p.frame j = some i ∧ p.Extends (l.pairing setting s t) ∧ Store.KeepsAll x s ∧
      Store.KeepsAll y t)
    (hMarks : ∀ m n, l.mark.target n = some m → ∃ p x y, StoresAlike .unremembered p x y ∧
      p.mark n = some m ∧ Store.KeepsAll x s ∧ Store.KeepsAll y t) :
    StoresAlike .unremembered (l.pairing setting s t) s t where
  root := hRoot
  frames i j hPair := by
    obtain ⟨p, x, y, hStores, hPair', hExtends, hLeft, hRight⟩ := hFrames i j hPair
    obtain ⟨f, g, hf, hg, hAlike⟩ := hStores.frames i j hPair'
    have hLt := hStores.lt hPair'
    exact ⟨f, g, (hLeft.frame i hLt.1 id).trans hf, (hRight.frame j hLt.2 id).trans hg,
      hAlike.extend hExtends⟩
  marks m n hMark := by
    obtain ⟨p, x, y, hStores, hMark', hLeft, hRight⟩ := hMarks m n hMark
    obtain ⟨hm, hn⟩ := hStores.marks m n hMark'
    exact ⟨Nat.lt_of_lt_of_le hm hLeft.marks, Nat.lt_of_lt_of_le hn hRight.marks⟩
  newFrames _ _ hi hj := Or.inr ⟨hi, hj⟩
  newMarks _ _ hm hn := Or.inr ⟨hm, hn⟩
  holds := ⟨fun _ _ _ hFalse => hFalse, fun _ hFalse => hFalse⟩

/-- The links of what is there before the first step. -/
def builtins : Links where
  frame := ⟨fun j => if j < 1 then some j else none, fun i j k hj hk => by
    rw [Option.ite_none_right_eq_some] at hj hk
    exact Option.some.inj (hj.2.trans hk.2.symm)⟩
  mark := ⟨fun n => if n < Builtin.names.length then some n else none, fun i j k hj hk => by
    rw [Option.ite_none_right_eq_some] at hj hk
    exact Option.some.inj (hj.2.trans hk.2.symm)⟩

theorem storesAlike_initial (setting : Setting) :
    StoresAlike .unremembered (builtins.pairing setting .initial .initial) .initial .initial where
  root := rfl
  frames i j hPair := by
    have hPair : (if j < 1 then some j else none) = some i := hPair
    rw [Option.ite_none_right_eq_some] at hPair
    obtain ⟨hj, hij⟩ := hPair
    obtain rfl : j = 0 := Nat.lt_one_iff.1 hj
    obtain rfl : 0 = i := Option.some.inj hij
    refine ⟨_, _, rfl, rfl, ?_, trivial⟩
    refine (List.map_map ..).trans (Eq.trans ?_ (List.map_map ..).symm)
    refine List.map_congr_left fun entry hEntry => ?_
    obtain ⟨name, mark⟩ := entry
    have hMark : mark < Builtin.names.length := by
      have hLt := (List.mem_zipIdx hEntry).2.1
      omega
    have hSame := ((builtins.pairing setting .initial .initial).rightMark_eq_iff mark mark).2
      (if_pos hMark)
    exact congrArg (fun n => (name, Value.builtin name (some n))) hSame
  marks m n hMark := by
    have hMark : (if n < Builtin.names.length then some n else none) = some m := hMark
    rw [Option.ite_none_right_eq_some] at hMark
    obtain rfl : n = m := Option.some.inj hMark.2
    exact ⟨hMark.1, hMark.1⟩
  newFrames _ _ hi hj := Or.inr ⟨hi, hj⟩
  newMarks _ _ hm hn := Or.inr ⟨hm, hn⟩
  holds := ⟨fun _ _ _ hFalse => hFalse, fun _ hFalse => hFalse⟩

end Links

/-! ## Matchings -/

namespace Session

/-- Steps of one session that are found again in another one, in any order. Each refers to steps
that are found again, and does the same with what they gave. -/
structure Matching (a b : Session) where
  kept : Nat → Prop
  twin : Nat → Nat
  found : ∀ n, kept n → ∃ step, a.steps[n]? = some step ∧
    b.steps[twin n]? = some (step.relabel twin)
  references : ∀ (n : Nat) (step : Step), kept n → a.steps[n]? = some step →
    ∀ k ∈ step.references, kept k
  inj : ∀ m n, kept m → kept n → twin m = twin n → m = n

variable {a b : Session} (m : a.Matching b) (setting : Setting)

/-- Links from the right session to what the first steps of the left one have made. -/
structure Matching.Joined (n : Nat) (l : Links) : Prop where
  stores : ∀ k, StoresAlike .unremembered
    (l.between setting (a.storeAt setting n) (b.storeAt setting k)) (a.storeAt setting n)
    (b.storeAt setting k)
  endings : ∀ k < n, m.kept k → Alike
    (l.between setting (a.storeAt setting n) (b.storeAt setting (m.twin k + 1)))
    ((a.endings setting)[k]?) ((b.endings setting)[m.twin k]?)
  frames : ∀ i j, l.frame.target j = some i → i < (a.storeAt setting n).frames.next
  marks : ∀ i j, l.mark.target j = some i → i < (a.storeAt setting n).nextMark
  newFrames : ∀ j, (∀ k < n, m.kept k → m.twin k ≠ j) → ∀ x,
    (b.storeAt setting j).frames.next ≤ x → x < (b.storeAt setting (j + 1)).frames.next →
    l.frame.target x = none
  newMarks : ∀ j, (∀ k < n, m.kept k → m.twin k ≠ j) → ∀ x,
    (b.storeAt setting j).nextMark ≤ x → x < (b.storeAt setting (j + 1)).nextMark →
    l.mark.target x = none

namespace Matching

variable {m} {setting}

theorem references_relabel (f : Nat → Nat) (step : Step) :
    (step.relabel f).references = step.references.map f := by
  have hSource (source : Source) : (source.relabel f).references = source.references.map f := by
    cases source <;> rfl
  have hSources (sources : List Source) :
      (sources.map (Source.relabel f)).flatMap Source.references =
        (sources.flatMap Source.references).map f := by
    rw [List.flatMap_map, List.map_flatMap]
    simp only [hSource]
  have hNamed (named : List (String × Source)) :
      (named.map fun entry => (entry.1, entry.2.relabel f)).map Prod.snd =
        (named.map Prod.snd).map (Source.relabel f) := by
    rw [List.map_map, List.map_map]
    rfl
  have hStep : (step.relabel f).sources = step.sources.map (Source.relabel f) := by
    cases step with
    | keep document => rfl
    | compile text name globals escape => exact hNamed globals
    | library root configuration =>
        show (configuration.map _).flatMap Step.configured = _
        rw [List.flatMap_map]
        show _ = (configuration.flatMap Step.configured).map _
        rw [List.map_flatMap]
        congr 1
        funext first
        cases first <;> rfl
    | call target field positional named =>
        simp only [Step.relabel, Step.sources, hNamed, List.map_cons, List.map_append]
  rw [Step.references, hStep, hSources]
  rfl

/-- With more links, and up to a later point of the right session, a pairing is extended. -/
theorem between_extends {l all : Links} (s s' : Store) {j k : Nat} (hk : j ≤ k)
    (hFrame : ∀ x y, l.frame.target y = some x → all.frame.target y = some x)
    (hMark : ∀ x y, l.mark.target y = some x → all.mark.target y = some x) :
    (l.between setting s (b.storeAt setting j)).Extends
      (all.between setting s' (b.storeAt setting k)) := by
  have hKeeps := b.keepsAll_storeAt setting hk
  refine Links.extends_pairing _ _ rfl rfl ⟨fun _ _ _ hFalse => hFalse, fun _ hFalse => hFalse⟩
    (fun x y hTo => ?_) fun x y hTo => ?_
  · obtain ⟨hy, hTo⟩ := Link.target_below.1 hTo
    exact Link.target_below.2 ⟨Nat.lt_of_lt_of_le hy hKeeps.frames, hFrame x y hTo⟩
  · obtain ⟨hy, hTo⟩ := Link.target_below.1 hTo
    exact Link.target_below.2 ⟨Nat.lt_of_lt_of_le hy hKeeps.marks, hMark x y hTo⟩

/-- What the steps that are referred to gave is alike. -/
theorem Joined.results {n : Nat} {l : Links} (h : m.Joined setting n l) {step : Step}
    (hKept : m.kept n) (hStep : a.steps[n]? = some step)
    (hTwin : b.steps[m.twin n]? = some (step.relabel m.twin)) :
    ResultsAlike (l.between setting (a.storeAt setting n) (b.storeAt setting (m.twin n))) m.twin
      (a.state setting n).endings (b.state setting (m.twin n)).endings step.references := by
  intro k hk
  have hEarlier : k < n := a.earlier n step hStep k hk
  have hEarlier' : m.twin k < m.twin n := by
    refine b.earlier _ _ hTwin _ ?_
    rw [references_relabel]
    exact List.mem_map_of_mem hk
  have hLeft := (List.getElem?_eq_some_iff.1 hStep).1
  have hRight := (List.getElem?_eq_some_iff.1 hTwin).1
  have hEndings := h.endings k hEarlier (m.references n step hKept hStep k hk)
  rw [← getElem?_endings_state a setting hEarlier (Nat.le_of_lt hLeft),
    ← getElem?_endings_state b setting hEarlier' (Nat.le_of_lt hRight)] at hEndings
  have hValue := hEndings.extend (between_extends _ (a.storeAt setting n)
    (Nat.succ_le_of_lt hEarlier') (fun _ _ hTo => hTo) fun _ _ hTo => hTo)
  refine hValue.apply (f := fun ending : Option Ending =>
    (ending.bind Except.toOption).getD .none) fun ρ _ ending => ?_
  rcases ending with _ | _ | value
  · rfl
  · rfl
  · rfl

/-- Before the first step the built-in functions are linked. -/
theorem joined_zero : m.Joined setting 0 Links.builtins := by
  have hStores := Links.storesAlike_initial setting
  have hKeeps k : Store.KeepsAll Store.initial (b.storeAt setting k) :=
    b.keepsAll_storeAt setting (Nat.zero_le k)
  have hExtends k : (Links.builtins.pairing setting .initial .initial).Extends
      (Links.builtins.between setting .initial (b.storeAt setting k)) := by
    refine Links.extends_pairing _ _ rfl rfl hStores.holds (fun i j hPair => ?_) fun i j hMark => ?_
    · exact Link.target_below.2 ⟨Nat.lt_of_lt_of_le (hStores.lt hPair).2 (hKeeps k).frames, hPair⟩
    · exact Link.target_below.2
        ⟨Nat.lt_of_lt_of_le (hStores.marks i j hMark).2 (hKeeps k).marks, hMark⟩
  refine ⟨fun k => ?_, fun k hk => absurd hk (Nat.not_lt_zero k), fun i j hTo => ?_,
    fun i j hTo => ?_, fun j _ x hLow _ => ?_, fun j _ x hLow _ => ?_⟩
  · refine Links.storesAlike_of_parts ((hExtends k).frame _ _ hStores.root) (fun i j hTo => ?_)
      fun i j hTo => ?_
    · exact ⟨_, _, _, hStores, (Link.target_below.1 hTo).2, hExtends k, .refl _ _, hKeeps k⟩
    · exact ⟨_, _, _, hStores, (Link.target_below.1 hTo).2, .refl _ _, hKeeps k⟩
  · exact (hStores.lt hTo).1
  · exact (hStores.marks i j hTo).1
  · refine Option.eq_none_iff_forall_ne_some.2 fun i hTo => ?_
    have hLt := Nat.lt_of_lt_of_le (hStores.lt hTo).2 (hKeeps j).frames
    exact Nat.not_lt_of_le hLow hLt
  · refine Option.eq_none_iff_forall_ne_some.2 fun i hTo => ?_
    have hLt := Nat.lt_of_lt_of_le (hStores.marks i x hTo).2 (hKeeps j).marks
    exact Nat.not_lt_of_le hLow hLt

/-- A step that is not found again adds no links. -/
theorem Joined.skip {n : Nat} {l : Links} (h : m.Joined setting n l) (hKept : ¬ m.kept n) :
    m.Joined setting (n + 1) l := by
  have hKeeps := a.keepsAll_storeAt setting (Nat.le_succ n)
  have hBefore (k : Nat) (hk : k < n + 1) (hKept' : m.kept k) : k < n :=
    Nat.lt_of_le_of_ne (Nat.le_of_lt_succ hk) fun hEq => hKept (hEq ▸ hKept')
  have hExtends k : (l.between setting (a.storeAt setting n) (b.storeAt setting k)).Extends
      (l.between setting (a.storeAt setting (n + 1)) (b.storeAt setting k)) :=
    between_extends _ _ (Nat.le_refl k) (fun _ _ hTo => hTo) fun _ _ hTo => hTo
  refine ⟨fun k => ?_, fun k hk hKept' => ?_, fun i j hTo => ?_, fun i j hTo => ?_,
    fun j hj => h.newFrames j fun k hk => hj k (Nat.lt_succ_of_lt hk),
    fun j hj => h.newMarks j fun k hk => hj k (Nat.lt_succ_of_lt hk)⟩
  · refine Links.storesAlike_of_parts (h.stores k).root (fun i j hPair => ?_) fun i j hMark => ?_
    · exact ⟨_, _, _, h.stores k, hPair, hExtends k, hKeeps, .refl _ _⟩
    · exact ⟨_, _, _, h.stores k, hMark, hKeeps, .refl _ _⟩
  · exact (h.endings k (hBefore k hk hKept') hKept').extend (hExtends _)
  · exact Nat.lt_of_lt_of_le (h.frames i j hTo) hKeeps.frames
  · exact Nat.lt_of_lt_of_le (h.marks i j hTo) hKeeps.marks

/-- A step that is found again adds the links of its new frames and marks. -/
theorem Joined.step {n : Nat} {l : Links} (h : m.Joined setting n l) (hKept : m.kept n) :
    ∃ all, m.Joined setting (n + 1) all := by
  obtain ⟨step, hStep, hTwin⟩ := m.found n hKept
  have hStores := h.stores (m.twin n)
  have hRun := alike_run (p := l.between setting (a.storeAt setting n)
    (b.storeAt setting (m.twin n))) rfl hStores.root step (h.results hKept hStep hTwin)
  obtain ⟨q, hq, hStores', hAlike⟩ := hRun.perform hStores
  have hLeft : a.storeAt setting (n + 1) = ((step.run (a.state setting n).endings).perform setting
      (a.storeAt setting n)).2 := by
    rw [storeAt, state_succ a setting hStep]
    rfl
  have hRight : b.storeAt setting (m.twin n + 1) = (((step.relabel m.twin).run
      (b.state setting (m.twin n)).endings).perform setting (b.storeAt setting (m.twin n))).2 := by
    rw [storeAt, state_succ b setting hTwin]
    rfl
  have hEnding : Alike q ((a.endings setting)[n]?) ((b.endings setting)[m.twin n]?) := by
    rw [getElem?_endings a setting hStep, getElem?_endings b setting hTwin]
    exact hAlike.some
  have hStores' : StoresAlike .unremembered q (a.storeAt setting (n + 1))
      (b.storeAt setting (m.twin n + 1)) := by
    rw [hLeft, hRight]
    exact hStores'
  have hOther (k : Nat) (hk : k < n) (hKept' : m.kept k) : m.twin k ≠ m.twin n :=
    fun hEq => Nat.ne_of_lt hk (m.inj k n hKept' hKept hEq)
  -- The links of the step go from new numbers to new numbers: nothing else may be paired.
  obtain ⟨frames, hFrames⟩ := l.frame.exists_adds q.frame
    (b.storeAt setting (m.twin n)).frames.next (b.storeAt setting (m.twin n + 1)).frames.next
    (a.storeAt setting n).frames.next
    (fun i j k hj hk => (q.frame_inj i j k hj hk).resolve_left (hStores'.holds.2 i)) h.frames
    (h.newFrames _ hOther) fun i j hPair => by
      have hMay := q.frame_may i j hPair
      rw [hq.mayFrame] at hMay
      refine ⟨(hStores'.lt hPair).2, hMay.imp (fun hOld => (Link.target_below.1 hOld).2) And.symm⟩
  obtain ⟨marks, hMarks⟩ := l.mark.exists_adds q.mark
    (b.storeAt setting (m.twin n)).nextMark (b.storeAt setting (m.twin n + 1)).nextMark
    (a.storeAt setting n).nextMark
    (fun i j k hj hk => q.mark_inj j k i hj hk) h.marks
    (h.newMarks _ hOther) fun i j hPair => by
      have hMay := q.mark_may i j hPair
      rw [hq.mayMark] at hMay
      refine ⟨(hStores'.marks i j hPair).2,
        hMay.imp (fun hOld => (Link.target_below.1 hOld).2) And.symm⟩
  have hKeeps := a.keepsAll_storeAt setting (Nat.le_succ n)
  have hOld k : (l.between setting (a.storeAt setting n) (b.storeAt setting k)).Extends
      (Links.between ⟨frames, marks⟩ setting (a.storeAt setting (n + 1)) (b.storeAt setting k)) :=
    between_extends _ _ (Nat.le_refl k) hFrames.keep hMarks.keep
  have hNew k (hk : m.twin n + 1 ≤ k) : q.Extends
      (Links.between ⟨frames, marks⟩ setting (a.storeAt setting (n + 1))
        (b.storeAt setting k)) := by
    have hKeeps := b.keepsAll_storeAt setting hk
    refine Links.extends_pairing _ _ hq.setting hq.exact hStores'.holds (fun i j hPair => ?_)
      fun i j hPair => ?_
    · have hLt := Nat.lt_of_lt_of_le (hStores'.lt hPair).2 hKeeps.frames
      exact Link.target_below.2 ⟨hLt, hFrames.add i j hPair⟩
    · have hLt := Nat.lt_of_lt_of_le (hStores'.marks i j hPair).2 hKeeps.marks
      exact Link.target_below.2 ⟨hLt, hMarks.add i j hPair⟩
  -- What is between the bounds of the step is not there before it, and there after it.
  have hAfter (f : Store → Nat) (hf : ∀ x y, Store.KeepsAll x y → f x ≤ f y) {k x : Nat}
      (hLow : f (b.storeAt setting (m.twin n)) ≤ x) (hx : x < f (b.storeAt setting k)) :
      m.twin n + 1 ≤ k := by
    by_contra hk
    have hLe := hf _ _ (b.keepsAll_storeAt setting (Nat.le_of_lt_succ (Nat.lt_of_not_le hk)))
    omega
  have hBefore (f : Store → Nat) (hf : ∀ x y, Store.KeepsAll x y → f x ≤ f y) {k x : Nat}
      (hk : k ≠ m.twin n) (hx : f (b.storeAt setting k) ≤ x)
      (hx' : x < f (b.storeAt setting (k + 1))) :
      ¬ (f (b.storeAt setting (m.twin n)) ≤ x ∧ x < f (b.storeAt setting (m.twin n + 1))) := by
    rintro ⟨hLow, hHigh⟩
    have hLess : m.twin n + 1 ≤ k + 1 := hAfter f hf hLow hx'
    have hLe := hf _ _ (b.keepsAll_storeAt setting (show m.twin n + 1 ≤ k by omega))
    omega
  refine ⟨⟨frames, marks⟩, fun k => ?_, fun k hk hKept' => ?_, fun i j hTo => ?_,
    fun i j hTo => ?_, fun j hj x hLow hHigh => ?_, fun j hj x hLow hHigh => ?_⟩
  · have hRoot := (Link.target_below.1 (h.stores k).root)
    refine Links.storesAlike_of_parts (Link.target_below.2 ⟨hRoot.1, hFrames.keep _ _ hRoot.2⟩)
      (fun i j hTo => ?_) fun i j hTo => ?_
    · obtain ⟨hj, hTo⟩ := Link.target_below.1 hTo
      rcases hFrames.cases i j hTo with hTo | ⟨hLow, hHigh, hTo⟩
      · exact ⟨_, _, _, h.stores k, Link.target_below.2 ⟨hj, hTo⟩, hOld k, hKeeps, .refl _ _⟩
      · have hk := hAfter (·.frames.next) (fun _ _ hKeeps => hKeeps.frames) hLow hj
        exact ⟨q, _, _, hStores', hTo, hNew k hk, .refl _ _, b.keepsAll_storeAt setting hk⟩
    · obtain ⟨hj, hTo⟩ := Link.target_below.1 hTo
      rcases hMarks.cases i j hTo with hTo | ⟨hLow, hHigh, hTo⟩
      · exact ⟨_, _, _, h.stores k, Link.target_below.2 ⟨hj, hTo⟩, hKeeps, .refl _ _⟩
      · have hk := hAfter (·.nextMark) (fun _ _ hKeeps => hKeeps.marks) hLow hj
        exact ⟨q, _, _, hStores', hTo, .refl _ _, b.keepsAll_storeAt setting hk⟩
  · rcases Nat.lt_or_eq_of_le (Nat.le_of_lt_succ hk) with hk | rfl
    · exact (h.endings k hk hKept').extend (hOld _)
    · exact hEnding.extend (hNew _ (Nat.le_refl _))
  · rcases hFrames.cases i j hTo with hTo | ⟨-, -, hTo⟩
    · exact Nat.lt_of_lt_of_le (h.frames i j hTo) hKeeps.frames
    · exact (hStores'.lt hTo).1
  · rcases hMarks.cases i j hTo with hTo | ⟨-, -, hTo⟩
    · exact Nat.lt_of_lt_of_le (h.marks i j hTo) hKeeps.marks
    · exact (hStores'.marks i j hTo).1
  · have hFree := h.newFrames j (fun k hk => hj k (Nat.lt_succ_of_lt hk)) x hLow hHigh
    refine Option.eq_none_iff_forall_ne_some.2 fun i hTo => ?_
    rcases hFrames.cases i x hTo with hTo | ⟨hLow', hHigh', -⟩
    · rw [hFree] at hTo
      cases hTo
    · exact hBefore (·.frames.next) (fun _ _ hKeeps => hKeeps.frames)
        (hj n (Nat.lt_succ_self n) hKept).symm hLow hHigh ⟨hLow', hHigh'⟩
  · have hFree := h.newMarks j (fun k hk => hj k (Nat.lt_succ_of_lt hk)) x hLow hHigh
    refine Option.eq_none_iff_forall_ne_some.2 fun i hTo => ?_
    rcases hMarks.cases i x hTo with hTo | ⟨hLow', hHigh', -⟩
    · rw [hFree] at hTo
      cases hTo
    · exact hBefore (·.nextMark) (fun _ _ hKeeps => hKeeps.marks)
        (hj n (Nat.lt_succ_self n) hKept).symm hLow hHigh ⟨hLow', hHigh'⟩

/-- Steps that are found again end alike. -/
theorem endings_alike (m : a.Matching b) (setting : Setting) {n : Nat} (hKept : m.kept n) :
    ∃ p : Pairing, Alike p ((a.endings setting)[n]?) ((b.endings setting)[m.twin n]?) := by
  have hJoined : ∀ n, ∃ l, m.Joined setting n l := by
    intro n
    induction n with
    | zero => exact ⟨_, joined_zero⟩
    | succ n ih =>
        obtain ⟨l, hl⟩ := ih
        by_cases hn : m.kept n
        · exact hl.step hn
        · exact ⟨l, hl.skip hn⟩
  obtain ⟨l, hl⟩ := hJoined (n + 1)
  exact ⟨_, hl.endings n (Nat.lt_succ_self n) hKept⟩

end Matching

end Session

/-! ## Endings without numbers -/

/-- How a step ends, without the numbers of the values. -/
def Ending.bare (ending : Ending) : Ending := ending.map Value.bare

/-- What is alike has one bare form. -/
theorem Alike.bare_eq {p : Pairing} {a b : Value} (h : Alike p a b) : a.bare = b.bare := by
  have hRename : a.rename p.left = b.rename p.right := h
  rw [← Value.bare_rename p.left a, hRename, Value.bare_rename]

theorem Alike.ending_bare_eq {p : Pairing} {a b : Ending} (h : Alike p a b) : a.bare = b.bare := by
  cases a with
  | error stop =>
      cases b with
      | error other => exact congrArg Except.error (Except.error.inj h)
      | ok value => cases h
  | ok value =>
      cases b with
      | error other => cases h
      | ok other =>
          have hValue : Alike p value other := Except.ok.inj h
          exact congrArg Except.ok hValue.bare_eq

/-- Executing instructions changes variables of the frame of the scene and of new frames only,
however it ends. Evaluating an expression changes no frame that was there, and what follows an
expression goes on with the loops and the rendering that were there. Steps of a session that are
found again in another one, in any order and among any other steps, end in the same way there. -/
theorem runs_are_isolated (setting : Setting) :
    (∀ (calls : Nat) (scene : Scene) (out : Rendering Value) (body : List Instr) (store : Store),
      Store.KeepsBut scene.frame store
        ((executeAll (services calls) scene out body).perform setting store).2) ∧
    (∀ (calls : Nat) (scene : Scene) (out : Rendering Value) (expr : Expr) (store : Store),
      Store.KeepsAll store ((expr.evaluate (services calls) scene out).perform setting store).2) ∧
    (∀ (calls : Nat) (scene : Scene) (out : Rendering Value) (expr : Expr) (rest : List Instr),
      executeAll (services calls) scene out (.execute (.expression expr) :: rest) = (do
        let _ ← expr.evaluate (services calls) scene out
        executeAll (services calls) scene out rest)) ∧
    (∀ (a b : Session) (m : a.Matching b) (n : Nat), m.kept n →
      ∃ x y, (a.endings setting)[n]? = some x ∧ (b.endings setting)[m.twin n]? = some y ∧
        x.bare = y.bare) := by
  refine ⟨fun calls scene out body store => ?_, fun calls scene out expr store => ?_,
    fun calls scene out expr rest => ?_, fun a b m n hKept => ?_⟩
  · exact keepsBut_executeAll (keepsAll_services calls) scene body out setting store
  · exact keepsAll_evaluate scene out (keepsAll_services calls) expr setting store
  · simp only [executeAll_cons, execute, Statement.execute, bind_assoc, pure_bind]
  · obtain ⟨step, hStep, hTwin⟩ := m.found n hKept
    have hLeft := a.getElem?_endings setting hStep
    have hRight := b.getElem?_endings setting hTwin
    obtain ⟨p, hAlike⟩ := m.endings_alike setting hKept
    rw [hLeft, hRight] at hAlike
    have hEnding : Alike p _ _ := Option.some.inj hAlike
    exact ⟨_, _, hLeft, hRight, hEnding.ending_bare_eq⟩

/-- A template that is called. -/
def Session.once : Session where
  steps := [.compile "$def with (x)\n$x\n" "page.html" [] none,
    .call (.result 0) none [.data (.string "<")] []]
  earlier n step h k hk := by
    match n, h with
    | 0, h => simp_all [← Option.some.inj h, Step.references, Step.sources]
    | 1, h => simp_all [← Option.some.inj h, Step.references, Step.sources, Source.references]

/-- The template that is called, after another step and another call. -/
def Session.again : Session where
  steps := [.keep (.int 1), .compile "$def with (x)\n$x\n" "page.html" [] none,
    .call (.result 1) none [.data (.string "a")] [],
    .call (.result 1) none [.data (.string "<")] []]
  earlier n step h k hk := by
    match n, h with
    | 0, h => simp_all [← Option.some.inj h, Step.references, Step.sources]
    | 1, h => simp_all [← Option.some.inj h, Step.references, Step.sources]
    | 2, h => simp_all [← Option.some.inj h, Step.references, Step.sources, Source.references]
    | 3, h => simp_all [← Option.some.inj h, Step.references, Step.sources, Source.references]

def Session.onceAgain : Session.once.Matching Session.again where
  kept n := n < 2
  twin n := 2 * n + 1
  found n h := by
    match n, h with
    | 0, _ => exact ⟨_, rfl, rfl⟩
    | 1, _ => exact ⟨_, rfl, rfl⟩
  references n step h hStep k hk := Nat.lt_trans (Session.once.earlier n step hStep k hk) h
  inj m n _ _ h := by omega

/-- The call ends in the same way in both sessions. -/
theorem call_isolated :
    ∃ x y, (Session.once.endings ⟨⟨[], [], []⟩, 9⟩)[1]? = some x ∧
      (Session.again.endings ⟨⟨[], [], []⟩, 9⟩)[3]? = some y ∧ x.bare = y.bare :=
  (runs_are_isolated ⟨⟨[], [], []⟩, 9⟩).2.2.2 Session.once Session.again Session.onceAgain 1
    (show 1 < 2 by decide)

end Stencil
