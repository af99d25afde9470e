import Stencil.Proofs.Alike.Pairing
import Stencil.Proofs.Keeping

/-!
# Runs that are alike

The stores of two runs belong together under a pairing when paired frames hold what is alike. Two
runs are alike when, from stores that belong together, both give what is alike or both stop for the
same reason, and their stores belong together again under a pairing that has grown.

What else has to hold of the left store is a parameter, an `Invariant`: it may speak of the memories
and of the frames that are sealed, which most steps leave alone.

## Main results

* `Run.Alike.bind`: steps that are alike one after another are alike.
* `Run.Alike.settle`, `Run.Alike.define`, `Run.Alike.lookup?`: steps on the store that are alike.
* `Run.Alike.inNewFrame`: what is done in a new frame on each side.
-/

namespace Stencil

/-! ## Stores that belong together -/

/-- What else holds of the left store, while its memories and its sealed frames stay as they are. -/
structure Invariant where
  Holds : Pairing → Store → Prop
  stable : ∀ {p q : Pairing} {store after : Store}, Holds p store → p.Extends q →
    q.memory = p.memory → q.isSealed = p.isSealed → after.caches = store.caches →
    (∀ i, p.isSealed i → after.frames.frame? i = store.frames.frame? i) → Holds q after

/-- Frames and marks are only added. -/
structure Store.Grown (before after : Store) : Prop where
  frames : before.frames.next ≤ after.frames.next
  marks : before.nextMark ≤ after.nextMark

/-- The frames around paired frames are paired, or there are none. -/
def Pairing.Parents (p : Pairing) (i j : FrameId) : Option FrameId → Option FrameId → Prop
  | none, none => True
  | some a, some b => p.frame b = some a ∧ a < i ∧ b < j
  | _, _ => False

/-- The left frame and the right one hold what is alike. -/
structure FramesAlike (p : Pairing) (i j : FrameId) (f g : Frame Value) : Prop where
  bindings : Alike p f.bindings g.bindings
  parents : p.Parents i j f.parent g.parent

/-- The stores of two runs belong together. -/
structure StoresAlike (I : Invariant) (p : Pairing) (s t : Store) : Prop where
  root : p.frame Store.builtinFrame = some Store.builtinFrame
  frames : ∀ i j, p.frame j = some i → ∃ f g, s.frames.frame? i = some f ∧
    t.frames.frame? j = some g ∧ FramesAlike p i j f g
  marks : ∀ m n, p.mark n = some m → m < s.nextMark ∧ n < t.nextMark
  newFrames : ∀ i j, s.frames.next ≤ i → t.frames.next ≤ j → p.mayFrame i j
  newMarks : ∀ m n, s.nextMark ≤ m → t.nextMark ≤ n → p.mayMark m n
  holds : I.Holds p s

variable {I : Invariant} {p q : Pairing} {s t : Store}

theorem Pairing.Parents.extend (hExtends : p.Extends q) {i j : FrameId} {a b : Option FrameId}
    (h : p.Parents i j a b) : q.Parents i j a b := by
  cases a <;> cases b <;> try exact h
  exact ⟨hExtends.frame _ _ h.1, h.2⟩

theorem FramesAlike.extend (hExtends : p.Extends q) {i j : FrameId} {f g : Frame Value}
    (h : FramesAlike p i j f g) : FramesAlike q i j f g :=
  ⟨h.bindings.extend hExtends, h.parents.extend hExtends⟩

theorem FramesAlike.mono (hLe : p ≤ q) {i j : FrameId} {f g : Frame Value}
    (h : FramesAlike p i j f g) : FramesAlike q i j f g := h.extend hLe.toExtends

/-- Paired frames are there. -/
theorem StoresAlike.lt (h : StoresAlike I p s t) {i j : FrameId} (hPair : p.frame j = some i) :
    i < s.frames.next ∧ j < t.frames.next := by
  obtain ⟨f, g, hf, hg, -⟩ := h.frames i j hPair
  exact ⟨(Array.getElem?_eq_some_iff.1 hf).1, (Array.getElem?_eq_some_iff.1 hg).1⟩

/-- Sealed frames are there. -/
theorem StoresAlike.lt_of_isSealed (h : StoresAlike I p s t) {i : FrameId}
    (hSealed : p.isSealed i) : i < s.frames.next := by
  obtain ⟨j, hPair⟩ := p.paired i hSealed
  exact (h.lt hPair).1

theorem Alike.find? {entries others : Entries Value} (h : Alike p entries others)
    (name : String) : Alike p (Entries.find? name entries) (Entries.find? name others) :=
  h.apply fun ρ _ entries => Entries.find?_rename ρ name entries

theorem Alike.insert {entries others : Entries Value} (h : Alike p entries others)
    (name : String) {value twin : Value} (hValue : Alike p value twin) :
    Alike p (Entries.insert name value entries) (Entries.insert name twin others) :=
  (h.pair hValue).apply (f := fun x => Entries.insert name x.2 x.1)
    fun ρ _ x => Entries.insert_rename ρ name x.2 x.1

/-- Variables of paired frames have values that are alike. -/
theorem StoresAlike.lookupWithin (h : StoresAlike I p s t) (name : String) :
    ∀ (i j m n : Nat), p.frame j = some i → i ≤ m → j ≤ n →
      Alike p (s.frames.lookupWithin name m i) (t.frames.lookupWithin name n j) := by
  intro i
  induction i using Nat.strongRecOn with
  | ind i ih =>
      intro j m n hPair hm hn
      obtain ⟨f, g, hf, hg, hAlike⟩ := h.frames i j hPair
      have hFind := hAlike.bindings.find? name
      have hParents := hAlike.parents
      unfold Frames.lookupWithin
      simp only [hf, hg]
      cases hLeft : Entries.find? name f.bindings with
      | some value =>
          cases hRight : Entries.find? name g.bindings with
          | some twin => rwa [hLeft, hRight] at hFind
          | none => rw [hLeft, hRight] at hFind; cases hFind
      | none =>
          cases hRight : Entries.find? name g.bindings with
          | some twin => rw [hLeft, hRight] at hFind; cases hFind
          | none =>
              simp only
              cases hParent : f.parent with
              | none =>
                  cases hOther : g.parent with
                  | none => exact Alike.none
                  | some b => rw [hParent, hOther] at hParents; exact hParents.elim
              | some a =>
                  cases hOther : g.parent with
                  | none => rw [hParent, hOther] at hParents; exact hParents.elim
                  | some b =>
                      rw [hParent, hOther] at hParents
                      obtain ⟨hPair', ha, hb⟩ := hParents
                      obtain ⟨m, rfl⟩ : ∃ k, m = k + 1 :=
                        ⟨m - 1, (Nat.succ_pred_eq_of_pos (Nat.lt_of_lt_of_le
                          (Nat.zero_lt_of_lt ha) hm)).symm⟩
                      obtain ⟨n, rfl⟩ : ∃ k, n = k + 1 :=
                        ⟨n - 1, (Nat.succ_pred_eq_of_pos (Nat.lt_of_lt_of_le
                          (Nat.zero_lt_of_lt hb) hn)).symm⟩
                      exact ih a ha b m n hPair' (Nat.le_of_lt_succ (Nat.lt_of_lt_of_le ha hm))
                        (Nat.le_of_lt_succ (Nat.lt_of_lt_of_le hb hn))

/-! ## Ends of runs -/

namespace Run

variable {α β : Type} [Renamable α] [Renamable β]

/-- Both runs give what is alike, or both stop for the same reason, and the stores belong together
again. -/
def Ends (I : Invariant) (p : Pairing) :
    EStateM.Result Stop Store α → EStateM.Result Stop Store α → Prop
  | .ok a s, .ok b t => ∃ q, p ≤ q ∧ StoresAlike I q s t ∧ Stencil.Alike q a b
  | .error stop s, .error other t => stop = other ∧ ∃ q, p ≤ q ∧ StoresAlike I q s t
  | _, _ => False

/-- From stores that belong together, now or later, the two runs end alike. -/
def Alike (I : Invariant) (p : Pairing) (m m' : Run α) : Prop :=
  ∀ q, p ≤ q → ∀ s t, StoresAlike I q s t → Ends I q (m q.setting s) (m' q.setting t)

theorem Ends.mono (hLe : p ≤ q) {x y : EStateM.Result Stop Store α} (h : Ends I q x y) :
    Ends I p x y := by
  match x, y, h with
  | .ok a s, .ok b t, ⟨r, hqr, hStores, hAlike⟩ => exact ⟨r, hLe.trans hqr, hStores, hAlike⟩
  | .error _ s, .error _ t, ⟨hStop, r, hqr, hStores⟩ => exact ⟨hStop, r, hLe.trans hqr, hStores⟩

/-- Runs that are alike, carried out on stores that belong together. -/
theorem Alike.perform {m m' : Run α} (h : Run.Alike I p m m') (hStores : StoresAlike I p s t) :
    ∃ q, p ≤ q ∧ StoresAlike I q (m.perform p.setting s).2 (m'.perform p.setting t).2 ∧
      Stencil.Alike q (m.perform p.setting s).1 (m'.perform p.setting t).1 := by
  have hEnds := h p le_rfl s t hStores
  simp only [Run.perform, ReaderT.run, EStateM.run]
  rcases hLeft : m p.setting s with ⟨a, s'⟩ | ⟨stop, s'⟩ <;>
    rcases hRight : m' p.setting t with ⟨b, t'⟩ | ⟨stop', t'⟩ <;>
      rw [hLeft, hRight] at hEnds
  · obtain ⟨q, hq, hStores, hAlike⟩ := hEnds
    exact ⟨q, hq, hStores, congrArg Except.ok hAlike⟩
  · exact hEnds.elim
  · exact hEnds.elim
  · obtain ⟨hStop, q, hq, hStores⟩ := hEnds
    exact ⟨q, hq, hStores, congrArg Except.error hStop⟩

namespace Alike

theorem mono {m m' : Run α} (h : Run.Alike I p m m') (hLe : p ≤ q) : Run.Alike I q m m' :=
  fun r hqr s t hStores => h r (hLe.trans hqr) s t hStores

theorem pure {a b : α} (h : Stencil.Alike p a b) : Run.Alike I p (Pure.pure a) (Pure.pure b) :=
  fun q hq _ _ hStores => ⟨q, le_rfl, hStores, h.mono hq⟩

theorem throw (stop : Stop) : Run.Alike I p (throw stop : Run α) (MonadExcept.throw stop) :=
  fun q _ _ _ hStores => ⟨rfl, q, le_rfl, hStores⟩

theorem fail (cause : Failure) : Run.Alike I p (Run.fail cause : Run α) (Run.fail cause) :=
  throw (.failure cause)

theorem fault (cause : Fault) : Run.Alike I p (Run.fault cause : Run α) (Run.fault cause) :=
  fail (.evaluation cause)

/-- Steps that are alike one after another are alike. -/
theorem bind {m m' : Run α} {next next' : α → Run β} (h : Run.Alike I p m m')
    (hNext : ∀ q, p ≤ q → ∀ a b, Stencil.Alike q a b → Run.Alike I q (next a) (next' b)) :
    Run.Alike I p (m >>= next) (m' >>= next') := by
  intro q hq s t hStores
  have hFirst := h q hq s t hStores
  rw [Preserves.bind_apply, Preserves.bind_apply]
  match m q.setting s, m' q.setting t, hFirst with
  | .error _ s', .error _ t', hStop => exact hStop
  | .ok a s', .ok b t', ⟨r, hqr, hStores', hAlike⟩ =>
      have hSecond := hNext r (hq.trans hqr) a b hAlike r le_rfl s' t' hStores'
      rw [hqr.setting] at hSecond
      exact hSecond.mono hqr

theorem map {m m' : Run α} {f g : α → β} (h : Run.Alike I p m m')
    (hf : ∀ q, p ≤ q → ∀ a b, Stencil.Alike q a b → Stencil.Alike q (f a) (g b)) :
    Run.Alike I p (f <$> m) (g <$> m') := by
  rw [← bind_pure_comp, ← bind_pure_comp]
  exact h.bind fun q hq a b hAlike => pure (hf q hq a b hAlike)

/-- The results of evaluations that are alike. -/
theorem ofEvaluation {x y : Except Fault α} (h : Stencil.Alike p x y) :
    Run.Alike I p (Run.ofEvaluation x) (Run.ofEvaluation y) := by
  cases x with
  | error cause =>
      cases y with
      | error other =>
          obtain rfl : cause = other := Except.error.inj h
          exact fault cause
      | ok b => cases h
  | ok a =>
      cases y with
      | error other => cases h
      | ok b => exact pure (Except.ok.inj h)

/-- The results of evaluations that are alike. -/
theorem liftFault {x y : Except Fault α} (h : Stencil.Alike p x y) :
    Run.Alike I p (liftM x) (liftM y) := ofEvaluation h

/-- A result that has no numbers in it is alike itself. -/
theorem liftFailure {x : Except Failure α} (h : ∀ ρ a, Renamable.rename ρ a = (a : α)) :
    Run.Alike I p (liftM x) (liftM x) := by
  cases x with
  | error cause => exact fail cause
  | ok a => exact pure ((h _ a).trans (h _ a).symm)

theorem ite {c c' : Prop} [Decidable c] [Decidable c'] {m m' n n' : Run α} (hc : c ↔ c')
    (h : Run.Alike I p m m') (h' : Run.Alike I p n n') :
    Run.Alike I p (if c then m else n) (if c' then m' else n') := by
  by_cases hTrue : c
  · rwa [if_pos hTrue, if_pos (hc.1 hTrue)]
  · rwa [if_neg hTrue, if_neg fun h => hTrue (hc.2 h)]

theorem optionMapM {γ : Type} {f f' : γ → Run α} {value : Option γ}
    (h : ∀ x ∈ value, Run.Alike I p (f x) (f' x)) :
    Run.Alike I p (value.mapM f) (value.mapM f') := by
  cases value with
  | none => exact pure Alike.none
  | some x => exact (h x rfl).map fun _ _ _ _ hAlike => hAlike.some

/-- Both runs make the same number of passes, and find the same files. -/
theorem read {next next' : Setting → Run α}
    (h : Run.Alike I p (next p.setting) (next' p.setting)) :
    Run.Alike I p (MonadReader.read >>= next) (MonadReader.read >>= next') := by
  intro q hq s t hStores
  have hNext := h q hq s t hStores
  rwa [← hq.setting] at hNext

end Alike

end Run

/-! ## New numbers -/

section Numbers

/-- The next marks of the left run stand for those of the right run. -/
def Pairing.number (p : Pairing) (m n count : Nat) (h : ∀ k l, p.mark l = some k → k < m)
    (hNew : ∀ k l, m ≤ k → n ≤ l → p.mayMark k l) : Pairing where
  setting := p.setting
  exact := p.exact
  frame := p.frame
  mark l := if n ≤ l ∧ l < n + count then some (m + (l - n)) else p.mark l
  isSealed := p.isSealed
  memory := p.memory
  mayFrame := p.mayFrame
  mayMark := p.mayMark
  mark_inj a b k ha hb := by
    split at ha <;> split at hb
    · simp only [Option.some.injEq] at ha hb
      omega
    · have hOld := h k b hb
      simp only [Option.some.injEq] at ha
      omega
    · have hOld := h k a ha
      simp only [Option.some.injEq] at hb
      omega
    · exact p.mark_inj a b k ha hb
  frame_inj := p.frame_inj
  paired := p.paired
  frame_may := p.frame_may
  mark_may k l hMark := by
    split at hMark
    · have hMark := Option.some.inj hMark
      exact hNew k l (by omega) (by omega)
    · exact p.mark_may k l hMark

/-- The next frame of the left run stands for that of the right run. -/
def Pairing.opened (p : Pairing) (i j : FrameId)
    (h : ∀ a b, p.frame b = some a → a < i ∧ b < j) (hNew : p.mayFrame i j) : Pairing where
  setting := p.setting
  exact := p.exact
  frame k := if k = j then some i else p.frame k
  mark := p.mark
  isSealed := p.isSealed
  memory := p.memory
  mayFrame := p.mayFrame
  mayMark := p.mayMark
  mark_inj := p.mark_inj
  frame_inj a b c hb hc := by
    split at hb <;> split at hc
    · rename_i hbj hcj
      exact Or.inr (hbj.trans hcj.symm)
    · obtain rfl := Option.some.inj hb
      exact absurd (h _ _ hc).1 (Nat.lt_irrefl _)
    · obtain rfl := Option.some.inj hc
      exact absurd (h _ _ hb).1 (Nat.lt_irrefl _)
    · exact p.frame_inj a b c hb hc
  paired k hSealed := by
    obtain ⟨b, hb⟩ := p.paired k hSealed
    have hbj : b ≠ j := Nat.ne_of_lt (h k b hb).2
    exact ⟨b, by rw [if_neg hbj, hb]⟩
  frame_may a b hFrame := by
    split at hFrame
    · rename_i hbj
      rw [hbj, ← Option.some.inj hFrame]
      exact hNew
    · exact p.frame_may a b hFrame
  mark_may := p.mark_may

theorem Pairing.le_number {m n : Nat} (count : Nat)
    (h : ∀ k l, p.mark l = some k → k < m) (hNew : ∀ k l, m ≤ k → n ≤ l → p.mayMark k l)
    (h' : ∀ k l, p.mark l = some k → l < n) : p ≤ p.number m n count h hNew where
  setting := rfl
  exact := rfl
  frame _ _ hFrame := hFrame
  mark k l hMark := by
    have hl := h' k l hMark
    show (if n ≤ l ∧ l < n + count then some (m + (l - n)) else p.mark l) = some k
    rw [if_neg (by omega), hMark]
  isSealed _ hSealed := hSealed
  memory _ _ _ hMemory := hMemory
  mayFrame := rfl
  mayMark := rfl
  stays _ _ _ hSealed := hSealed

theorem Pairing.le_opened {i j : FrameId} (h : ∀ a b, p.frame b = some a → a < i ∧ b < j)
    (hNew : p.mayFrame i j) : p ≤ p.opened i j h hNew where
  setting := rfl
  exact := rfl
  frame a b hFrame := by
    have hbj : b ≠ j := Nat.ne_of_lt (h a b hFrame).2
    show (if b = j then some i else p.frame b) = some a
    rw [if_neg hbj, hFrame]
  mark _ _ hMark := hMark
  isSealed _ hSealed := hSealed
  memory _ _ _ hMemory := hMemory
  mayFrame := rfl
  mayMark := rfl
  stays _ _ _ hSealed := hSealed

/-- The new numbers on both sides are renamed to the same ones. -/
theorem Pairing.sameFrom_number (p : Pairing) {m n : Nat} (count : Nat)
    (h : ∀ k l, p.mark l = some k → k < m) (hNew : ∀ k l, m ≤ k → n ≤ l → p.mayMark k l) :
    Value.SameFrom (p.number m n count h hNew).left (p.number m n count h hNew).right m n
      count := by
  have hMark (i : Nat) (hi : i < count) :
      (p.number m n count h hNew).mark (n + i) = some (m + i) := by
    show (if n ≤ n + i ∧ n + i < n + count then some (m + (n + i - n)) else p.mark (n + i)) = _
    rw [if_pos (by omega), Nat.add_sub_cancel_left]
  refine ⟨fun i hi => ?_, fun i hi => ?_⟩
  · exact ((p.number m n count h hNew).rightMark_eq_iff _ _).2 (hMark i hi)
  · have hSame := ((p.number m n count h hNew).rightMark_eq_iff _ _).2 (hMark i hi)
    show (if p.exact then 2 * (m + i) else 0) =
      if p.exact then (p.number m n count h hNew).rightMark (n + i) else 0
    rw [hSame]

end Numbers

/-! ## Steps on the store -/

namespace StoresAlike

/-- A change of the left store that leaves its memories and its sealed frames. -/
theorem change (h : StoresAlike I p s t) {after other : Store} (hLe : p ≤ q)
    (hMemory : q.memory = p.memory) (hSame : q.isSealed = p.isSealed)
    (hCaches : after.caches = s.caches)
    (hSealed : ∀ i, p.isSealed i → after.frames.frame? i = s.frames.frame? i)
    (hFrames : ∀ i j, q.frame j = some i → ∃ f g, after.frames.frame? i = some f ∧
      other.frames.frame? j = some g ∧ FramesAlike q i j f g)
    (hMarks : ∀ m n, q.mark n = some m → m < after.nextMark ∧ n < other.nextMark)
    (hLeft : s.Grown after) (hRight : t.Grown other) :
    StoresAlike I q after other where
  root := hLe.frame _ _ h.root
  frames := hFrames
  marks := hMarks
  newFrames i j hi hj := by
    rw [hLe.mayFrame]
    exact h.newFrames i j (Nat.le_trans hLeft.frames hi) (Nat.le_trans hRight.frames hj)
  newMarks m n hm hn := by
    rw [hLe.mayMark]
    exact h.newMarks m n (Nat.le_trans hLeft.marks hm) (Nat.le_trans hRight.marks hn)
  holds := I.stable h.holds hLe.toExtends hMemory hSame hCaches hSealed

/-- Marks are added on both sides. -/
theorem number (h : StoresAlike I p s t) (count : Nat) :
    ∃ q, p ≤ q ∧ Value.SameFrom q.left q.right s.nextMark t.nextMark count ∧
      StoresAlike I q { s with nextMark := s.nextMark + count }
        { t with nextMark := t.nextMark + count } := by
  have hLeft k l (hMark : p.mark l = some k) : k < s.nextMark := (h.marks k l hMark).1
  have hLe := Pairing.le_number count hLeft h.newMarks fun k l hMark => (h.marks k l hMark).2
  refine ⟨_, hLe, p.sameFrom_number count hLeft h.newMarks, ?_⟩
  refine h.change hLe rfl rfl rfl (fun _ _ => rfl) (fun i j hPair => ?_) (fun m n hMark => ?_)
    ⟨Nat.le_refl _, Nat.le_add_right ..⟩ ⟨Nat.le_refl _, Nat.le_add_right ..⟩
  · obtain ⟨f, g, hf, hg, hAlike⟩ := h.frames i j hPair
    exact ⟨f, g, hf, hg, hAlike.mono hLe⟩
  · have hMark : (if t.nextMark ≤ n ∧ n < t.nextMark + count
        then some (s.nextMark + (n - t.nextMark)) else p.mark n) = some m := hMark
    show m < s.nextMark + count ∧ n < t.nextMark + count
    split at hMark
    · have hMark := Option.some.inj hMark
      omega
    · have hOld := h.marks m n hMark
      omega

/-- A frame is added on each side. -/
theorem openFrame (h : StoresAlike I p s t) {a b : FrameId} (hParent : p.frame b = some a) :
    ∃ q, p ≤ q ∧ q.frame t.frames.next = some s.frames.next ∧ ¬ q.isSealed s.frames.next ∧
      StoresAlike I q { s with frames := s.frames.child a }
      { t with frames := t.frames.child b } := by
  have hOld i j (hPair : p.frame j = some i) := h.lt hPair
  have hMay := h.newFrames _ _ (Nat.le_refl _) (Nat.le_refl _)
  have hLe := Pairing.le_opened hOld hMay
  have hNew : (p.opened s.frames.next t.frames.next hOld hMay).frame t.frames.next =
      some s.frames.next := if_pos rfl
  have hGrown (store : Store) (parent : FrameId) :
      store.Grown { store with frames := store.frames.child parent } :=
    ⟨Nat.le_of_lt (by rw [Frames.next_child]; exact Nat.lt_succ_self _), Nat.le_refl _⟩
  refine ⟨_, hLe, hNew, fun hSealed => Nat.lt_irrefl _ (h.lt_of_isSealed hSealed), ?_⟩
  refine h.change hLe rfl rfl rfl (fun i hSealed => ?_) (fun i j hPair => ?_) h.marks (hGrown s a)
    (hGrown t b)
  · exact Frames.frame?_child (h.lt_of_isSealed hSealed) a
  · by_cases hj : j = t.frames.next
    · subst hj
      obtain rfl : s.frames.next = i := Option.some.inj (hNew.symm.trans hPair)
      have hLt := h.lt hParent
      exact ⟨⟨[], some a⟩, ⟨[], some b⟩, Frames.frame?_child_next .., Frames.frame?_child_next ..,
        Alike.nil, hLe.frame a b hParent, hLt⟩
    · have hPair : p.frame j = some i := (if_neg hj).symm.trans hPair
      obtain ⟨f, g, hf, hg, hAlike⟩ := h.frames i j hPair
      have hLt := h.lt hPair
      exact ⟨f, g, (Frames.frame?_child hLt.1 a).trans hf, (Frames.frame?_child hLt.2 b).trans hg,
        hAlike.mono hLe⟩

/-- A variable is defined in paired frames. -/
theorem define (h : StoresAlike I p s t) {i j : FrameId} (hPair : p.frame j = some i)
    (hOpen : ¬ p.isSealed i) (name : String) {value twin : Value} (hValue : Alike p value twin) :
    StoresAlike I p { s with frames := s.frames.define i name value }
      { t with frames := t.frames.define j name twin } := by
  have hGrown (store : Store) (frame : FrameId) (value : Value) :
      store.Grown { store with frames := store.frames.define frame name value } :=
    ⟨Nat.le_of_eq (Frames.next_define ..).symm, Nat.le_refl _⟩
  refine h.change le_rfl rfl rfl rfl (fun k hSealed => ?_) (fun a b hOther => ?_) h.marks
    (hGrown s i value)
    (hGrown t j twin)
  · have hk : k ≠ i := fun hk => hOpen (hk ▸ hSealed)
    exact Frames.frame?_define_other hk name value
  · obtain ⟨f, g, hf, hg, hAlike⟩ := h.frames a b hOther
    by_cases ha : a = i
    · subst ha
      obtain rfl : b = j := (p.frame_inj a b j hOther hPair).resolve_left hOpen
      refine ⟨_, _, (Frames.frame?_define_same ..).trans (congrArg _ hf),
        (Frames.frame?_define_same ..).trans (congrArg _ hg), ?_, hAlike.parents⟩
      exact hAlike.bindings.insert name hValue
    · have hb : b ≠ j := fun hb => by
        rw [hb, hPair] at hOther
        exact ha (Option.some.inj hOther).symm
      exact ⟨f, g, (Frames.frame?_define_other ha name value).trans hf,
        (Frames.frame?_define_other hb name twin).trans hg, hAlike⟩

end StoresAlike

namespace Run.Alike

theorem settle {value twin : Value} (h : Stencil.Alike p value twin) :
    Run.Alike I p (Run.settle value) (Run.settle twin) := by
  intro q hq s t hStores
  have hValue := h.mono hq
  have hCount : twin.unsettled = value.unsettled := Value.unsettled_eq hValue
  obtain ⟨r, hqr, hSame, hStores'⟩ := hStores.number value.unsettled
  refine ⟨r, hqr, ?_, Value.rename_settle _ _ value twin (hValue.mono hqr) hSame⟩
  rw [Value.settle_snd, Value.settle_snd, hCount]
  exact hStores'

theorem lookup? {i j : FrameId} (hPair : p.frame j = some i) (name : String) :
    Run.Alike I p (Run.lookup? i name) (Run.lookup? j name) := by
  intro q hq s t hStores
  refine ⟨q, le_rfl, hStores, ?_⟩
  exact hStores.lookupWithin name i j i j (hq.frame i j hPair) (Nat.le_refl _) (Nat.le_refl _)

theorem defineAsIs {i j : FrameId} (hPair : p.frame j = some i) (hOpen : ¬ p.isSealed i)
    (name : String) {value twin : Value} (h : Stencil.Alike p value twin) :
    Run.Alike I p (Run.defineAsIs i name value) (Run.defineAsIs j name twin) := by
  intro q hq s t hStores
  have hOpen : ¬ q.isSealed i := fun hSealed => hOpen (hq.stays i j hPair hSealed)
  exact ⟨q, le_rfl, hStores.define (hq.frame i j hPair) hOpen name (h.mono hq), rfl⟩

theorem define {i j : FrameId} (hPair : p.frame j = some i) (hOpen : ¬ p.isSealed i)
    (name : String) {value twin : Value} (h : Stencil.Alike p value twin) :
    Run.Alike I p (Run.define i name value) (Run.define j name twin) :=
  (settle h).bind fun _ hq _ _ hAlike =>
    defineAsIs (hq.frame i j hPair) (fun hSealed => hOpen (hq.stays i j hPair hSealed)) name hAlike

theorem defineAll {i j : FrameId} (hPair : p.frame j = some i) (hOpen : ¬ p.isSealed i)
    {entries others : List (String × Value)} (h : Stencil.Alike p entries others) :
    Run.Alike I p (Run.defineAll i entries) (Run.defineAll j others) := by
  induction entries generalizing p others with
  | nil =>
      cases others with
      | nil => exact pure rfl
      | cons other others => cases h
  | cons entry rest ih =>
      cases others with
      | nil => cases h
      | cons other others =>
          have hEntry : Stencil.Alike p entry other := (List.cons.inj h).1
          have hName : entry.1 = other.1 := hEntry.fst
          have hFirst := define (I := I) hPair hOpen entry.1 hEntry.snd
          rw [Run.defineAll, Run.defineAll, ← hName]
          refine hFirst.bind fun q hq _ _ _ => ih (hq.frame i j hPair) ?_ ?_
          · exact fun hSealed => hOpen (hq.stays i j hPair hSealed)
          · exact Stencil.Alike.mono (List.cons.inj h).2 hq

/-- What is done in a new frame on each side. -/
theorem inNewFrame {α : Type} [Renamable α] {a b : FrameId} (hParent : p.frame b = some a)
    {body body' : FrameId → Run α}
    (h : ∀ q, p ≤ q → ∀ i j, q.frame j = some i → ¬ q.isSealed i →
      Run.Alike I q (body i) (body' j)) :
    Run.Alike I p (openFrame a >>= body) (openFrame b >>= body') := by
  intro q hq s t hStores
  obtain ⟨r, hqr, hPair, hOpen, hStores'⟩ := hStores.openFrame (hq.frame a b hParent)
  have hBody := h r (hq.trans hqr) _ _ hPair hOpen r le_rfl _ _ hStores'
  rw [hqr.setting] at hBody
  exact hBody.mono hqr

theorem count (counter other : Nat) : Run.Alike I p (Run.count counter) (Run.count other) := by
  intro q hq s t hStores
  refine ⟨q, le_rfl, ?_, rfl⟩
  exact hStores.change le_rfl rfl rfl rfl (fun _ _ => rfl) hStores.frames hStores.marks
    ⟨Nat.le_refl _, Nat.le_refl _⟩ ⟨Nat.le_refl _, Nat.le_refl _⟩

end Run.Alike

end Stencil
