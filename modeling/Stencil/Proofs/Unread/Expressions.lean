import Stencil.Proofs.Ensuring
import Stencil.Proofs.Reads
import Stencil.Proofs.Unread.Words

/-!
# Names that expressions are read with

A reader draws from what is left to be read: what it gives is made of that, and what it leaves was
there before. For the readers of expressions it is told of the names: as long as the names among the
tokens are words that are meant, so are all the names that the expression reads. No reader puts a
name into a tree that it has not met as a token.

## Main results

* `readersDraw`: the readers of expressions put in no names.
* `Expr.only_read`, `Statement.only_read`, `only_readParameters`: the names that code reads stand in
  it.
-/

namespace Stencil

/-- What the reader gives from what is good satisfies `Q`, and what it leaves is good. -/
def Draws {σ ε α : Type} (good : σ → Prop) (Q : α → Prop)
    (reader : StateT (List σ) (Except ε) α) : Prop :=
  ∀ rest, (∀ x ∈ rest, good x) → ∀ a after, reader rest = .ok (a, after) →
    Q a ∧ ∀ x ∈ after, good x

namespace Draws

variable {σ ε α β : Type} {good : σ → Prop} {Q : α → Prop} {R : β → Prop}

theorem pure {a : α} (h : Q a) : Draws good Q (Pure.pure a : StateT (List σ) (Except ε) α) := by
  intro rest hRest b after hRead
  cases hRead
  exact ⟨h, hRest⟩

theorem bind {reader : StateT (List σ) (Except ε) α} {next : α → StateT (List σ) (Except ε) β}
    (h : Draws good Q reader) (hNext : ∀ a, Q a → Draws good R (next a)) :
    Draws good R (reader >>= next) := by
  intro rest hRest b after hRead
  have hBind : (reader >>= next) rest = (reader rest >>= fun found => next found.1 found.2) := rfl
  rw [hBind] at hRead
  cases hFirst : reader rest with
  | error cause => rw [hFirst] at hRead; cases hRead
  | ok found =>
      rw [hFirst] at hRead
      obtain ⟨hFound, hLeft⟩ := h rest hRest found.1 found.2 hFirst
      exact hNext found.1 hFound found.2 hLeft b after hRead

/-- A reader that refuses. -/
theorem refuses {reader : StateT (List σ) (Except ε) α}
    (h : ∀ rest, ∃ cause, reader rest = .error cause) : Draws good Q reader := by
  intro rest _ a after hRead
  obtain ⟨cause, hCause⟩ := h rest
  rw [hCause] at hRead
  cases hRead

theorem mono {Q' : α → Prop} {reader : StateT (List σ) (Except ε) α} (h : Draws good Q reader)
    (hQ : ∀ a, Q a → Q' a) : Draws good Q' reader :=
  fun rest hRest a after hRead => (h rest hRest a after hRead).imp_left (hQ a)

theorem map {reader : StateT (List σ) (Except ε) α} {f : α → β}
    (h : Draws good (fun a => R (f a)) reader) : Draws good R (f <$> reader) := by
  rw [← bind_pure_comp]
  exact h.bind fun a ha => .pure ha

theorem ite {c : Prop} [Decidable c] {reader other : StateT (List σ) (Except ε) α}
    (h : c → Draws good Q reader) (h' : ¬ c → Draws good Q other) :
    Draws good Q (if c then reader else other) := by
  by_cases hc : c
  · rw [if_pos hc]
    exact h hc
  · rw [if_neg hc]
    exact h' hc

end Draws

open Reader

section Readers

variable {Word : String → Prop} {α : Type} {Q : α → Prop}

/-- A token that is a name, and no keyword, is one of the words that are meant. -/
def Token.Spells (Word : String → Prop) (t : Token) : Prop :=
  t.kind = .name → isKeyword t.text = false → Word (String.ofList t.text)

/-- Read from names that are meant, the result satisfies `Q`. -/
abbrev Reader.Draws (Word : String → Prop) {α : Type} (Q : α → Prop) (reader : Reader α) : Prop :=
  Stencil.Draws (Token.Spells Word) Q reader

theorem draws_unexpected : Reader.Draws Word Q unexpected :=
  .refuses fun rest => by cases rest <;> exact ⟨_, rfl⟩

theorem draws_fail (cause : SyntaxCause) : Reader.Draws Word Q (fail cause) :=
  .refuses fun _ => ⟨_, rfl⟩

theorem draws_failAtStart (cause : SyntaxCause) : Reader.Draws Word Q (failAtStart cause) :=
  .refuses fun _ => ⟨_, rfl⟩

/-- A reader that passes over tokens and looks at them. -/
theorem draws_look {f : List Token → α} {g : List Token → List Token}
    (hg : ∀ rest, ∀ t ∈ g rest, t ∈ rest) (hQ : ∀ rest, (∀ t ∈ rest, t.Spells Word) → Q (f rest)) :
    Reader.Draws Word Q fun rest => .ok (f rest, g rest) := by
  intro rest hRest a after hRead
  cases hRead
  exact ⟨hQ rest hRest, fun t ht => hRest t (hg rest t ht)⟩

theorem draws_peek? : Reader.Draws Word (fun found => ∀ t ∈ found, t.Spells Word) peek? :=
  draws_look (g := id) (fun _ _ ht => ht) fun _ hRest t ht =>
    hRest t (List.mem_of_mem_head? ht)

theorem draws_advance : Reader.Draws Word (fun _ => True) advance :=
  draws_look (fun _ _ ht => List.mem_of_mem_tail ht) fun _ _ => trivial

theorem draws_nextIs (test : Token → Bool) : Reader.Draws Word (fun _ => True) (nextIs test) :=
  draws_look (g := id) (fun _ _ ht => ht) fun _ _ => trivial

theorem draws_eat (test : Token → Bool) : Reader.Draws Word (fun _ => True) (eat test) := by
  intro rest hRest a after hRead
  refine ⟨trivial, fun t ht => hRest t ?_⟩
  cases rest with
  | nil => cases hRead; exact ht
  | cons first others =>
      simp only [eat] at hRead
      split at hRead
      · cases hRead
        exact List.mem_cons_of_mem _ ht
      · cases hRead
        exact ht

theorem draws_keyword (word : String) : Reader.Draws Word (fun _ => True) (keyword word) :=
  (draws_eat _).bind fun _ _ => .ite (fun _ => .pure trivial) fun _ => draws_fail _

theorem draws_close (bracket : Char) : Reader.Draws Word (fun _ => True) (close bracket) :=
  (draws_eat _).bind fun _ _ => .ite (fun _ => .pure trivial) fun _ => draws_fail _

theorem draws_identifier : Reader.Draws Word (fun _ => True) identifier :=
  draws_peek?.bind fun found _ => by
    cases found with
    | none => exact draws_fail _
    | some t =>
        exact .ite (fun _ => draws_advance.bind fun _ _ => .pure trivial) fun _ => draws_fail _

/-- A reader that gives nothing that holds a name, and passes over tokens. -/
theorem draws_of_subset {reader : Reader α}
    (h : ∀ rest a after, reader rest = .ok (a, after) → ∀ t ∈ after, t ∈ rest) :
    Reader.Draws Word (fun _ => True) reader :=
  fun rest hRest a after hRead => ⟨trivial, fun t ht => hRest t (h rest a after hRead t ht)⟩

theorem draws_finish : Reader.Draws Word (fun _ => True) finish :=
  draws_of_subset fun rest a after hRead t ht => by
    cases rest with
    | nil => cases hRead; exact ht
    | cons first others => cases hRead

theorem draws_comparison? : Reader.Draws Word (fun _ => True) comparison? :=
  draws_of_subset fun rest a after hRead => by
    cases rest with
    | nil => cases hRead; exact fun t ht => ht
    | cons first others =>
        have hOne (op : CompareOp) :
            Ensures (fun found : Option CompareOp × List Token => found.2 ⊆ first :: others)
              (.ok (some op, others) : Except (SyntaxCause × Place) _) :=
          .pure (List.subset_cons_self ..)
        have hTwo (op : CompareOp) :
            Ensures (fun found : Option CompareOp × List Token => found.2 ⊆ first :: others)
              (.ok (some op, others.tail) : Except (SyntaxCause × Place) _) :=
          .pure fun _ ht => List.mem_cons_of_mem _ (List.mem_of_mem_tail ht)
        have hAll : Ensures (fun found : Option CompareOp × List Token => found.2 ⊆ first :: others)
            (comparison? (first :: others)) :=
          .ite (fun _ => hOne _) fun _ => .ite (fun _ => hOne _) fun _ =>
            .ite (fun _ => hOne _) fun _ => .ite (fun _ => hOne _) fun _ =>
              .ite (fun _ => hOne _) fun _ => .ite (fun _ => hOne _) fun _ =>
                .ite (fun _ => hOne _) fun _ => .ite (fun _ => hTwo _) fun _ =>
                  .ite (fun _ => hTwo _) fun _ => .ite (fun _ => hOne _) fun _ =>
                    .pure (List.Subset.refl _)
        exact fun t ht => hAll (a, after) hRead ht

theorem draws_operator? (ops : List BinaryOp) :
    Reader.Draws Word (fun _ => True) (operator? ops) :=
  draws_of_subset fun rest a after hRead t ht => by
    cases rest with
    | nil => cases hRead; exact ht
    | cons first others =>
        simp only [operator?] at hRead
        split at hRead <;> cases hRead
        · exact List.mem_cons_of_mem _ ht
        · exact ht

theorem draws_strings : Reader.Draws Word (fun _ => True) strings :=
  draws_of_subset fun rest => by
    show ∀ a after, strings.go rest = .ok (a, after) → ∀ t ∈ after, t ∈ rest
    induction rest with
    | nil =>
        intro a after hRead t ht
        cases hRead
        exact ht
    | cons first others ih =>
        intro a after hRead t ht
        rw [strings.go] at hRead
        split at hRead
        · split at hRead
          · cases hRead
          · cases hText : strings.go others with
            | error cause => rw [hText] at hRead; cases hRead
            | ok found =>
                rw [hText] at hRead
                cases hRead
                exact List.mem_cons_of_mem _ (ih found.1 found.2 hText t ht)
        · cases hRead
          exact ht

theorem mem_of_mem_signs (rest : List Token) : ∀ t ∈ (signs rest).2, t ∈ rest := by
  induction rest with
  | nil => exact fun _ ht => ht
  | cons first others ih =>
      intro t ht
      rw [signs] at ht
      split at ht
      · exact List.mem_cons_of_mem _ (ih t ht)
      · split at ht
        · exact List.mem_cons_of_mem _ (ih t ht)
        · exact ht

theorem draws_argumentName? : Reader.Draws Word (fun _ => True) argumentName? :=
  draws_of_subset fun rest a after hRead t ht => by
    unfold argumentName? at hRead
    split at hRead
    · split at hRead <;> cases hRead <;> exact ht
    · cases hRead
      exact ht

theorem draws_augmentedOperator? : Reader.Draws Word (fun _ => True) augmentedOperator? :=
  draws_of_subset fun rest a after hRead t ht => by
    cases rest with
    | nil => cases hRead; exact ht
    | cons first others =>
        simp only [augmentedOperator?] at hRead
        split at hRead <;> cases hRead
        · exact List.mem_cons_of_mem _ ht
        · exact ht

end Readers

/-! ## Expressions -/

namespace Expr

/-- Every name that the expression reads is one of the words that are meant. -/
def ReadsOnly (Word : String → Prop) (expr : Expr) : Prop := ∀ name ∈ expr.reads, Word name

variable {Word : String → Prop}

theorem only_allReads {items : List Expr} (h : ∀ item ∈ items, item.ReadsOnly Word) :
    ∀ name ∈ allReads items, Word name := by
  induction items with
  | nil => exact nofun
  | cons item items ih =>
      obtain ⟨hItem, hItems⟩ := List.forall_mem_cons.1 h
      exact List.forall_mem_append.2 ⟨hItem, ih hItems⟩

theorem only_namedReads {named : List (String × Expr)}
    (h : ∀ entry ∈ named, entry.2.ReadsOnly Word) : ∀ name ∈ namedReads named, Word name := by
  induction named with
  | nil => exact nofun
  | cons entry named ih =>
      obtain ⟨hEntry, hNamed⟩ := List.forall_mem_cons.1 h
      exact List.forall_mem_append.2 ⟨hEntry, ih hNamed⟩

theorem only_linkReads {links : List (CompareOp × Expr)}
    (h : ∀ link ∈ links, link.2.ReadsOnly Word) : ∀ name ∈ linkReads links, Word name := by
  induction links with
  | nil => exact nofun
  | cons link links ih =>
      obtain ⟨hLink, hLinks⟩ := List.forall_mem_cons.1 h
      exact List.forall_mem_append.2 ⟨hLink, ih hLinks⟩

theorem only_entryReads {entries : List (Expr × Expr)}
    (h : ∀ entry ∈ entries, entry.1.ReadsOnly Word ∧ entry.2.ReadsOnly Word) :
    ∀ name ∈ entryReads entries, Word name := by
  induction entries with
  | nil => exact nofun
  | cons entry entries ih =>
      obtain ⟨hEntry, hEntries⟩ := List.forall_mem_cons.1 h
      exact List.forall_mem_append.2
        ⟨hEntry.1, List.forall_mem_append.2 ⟨hEntry.2, ih hEntries⟩⟩

theorem only_optionalReads {expr : Option Expr} (h : ∀ found ∈ expr, found.ReadsOnly Word) :
    ∀ name ∈ optionalReads expr, Word name := by
  cases expr with
  | none => exact nofun
  | some found => exact h found rfl

theorem readsOnly_binary {op : BinaryOp} {left right : Expr} (hLeft : left.ReadsOnly Word)
    (hRight : right.ReadsOnly Word) : (Expr.binary op left right).ReadsOnly Word :=
  List.forall_mem_append.2 ⟨hLeft, hRight⟩

theorem readsOnly_slice {value : Expr} {start stop step : Option Expr}
    (hValue : value.ReadsOnly Word) (hStart : ∀ found ∈ start, found.ReadsOnly Word)
    (hStop : ∀ found ∈ stop, found.ReadsOnly Word) (hStep : ∀ found ∈ step, found.ReadsOnly Word) :
    (Expr.slice value start stop step).ReadsOnly Word :=
  List.forall_mem_append.2 ⟨hValue, List.forall_mem_append.2 ⟨only_optionalReads hStart,
    List.forall_mem_append.2 ⟨only_optionalReads hStop, only_optionalReads hStep⟩⟩⟩

theorem readsOnly_signed {ops : List UnaryOp} {operand : Expr} (h : operand.ReadsOnly Word) :
    (ops.foldr .unary operand).ReadsOnly Word := by
  induction ops with
  | nil => exact h
  | cons op ops ih => exact ih

end Expr

section Grammar

variable (Word : String → Prop)

/-- The readers of expressions draw the names that they put in, with this budget. -/
structure ReadersDraw (budget : Nat) : Prop where
  tuple : Reader.Draws Word (·.ReadsOnly Word) (readTuple budget)
  tupleTail : Reader.Draws Word (∀ item ∈ ·, item.ReadsOnly Word) (readTupleTail budget)
  expr : Reader.Draws Word (·.ReadsOnly Word) (readExpr budget)
  or : Reader.Draws Word (·.ReadsOnly Word) (readOr budget)
  orTail : ∀ left, left.ReadsOnly Word →
    Reader.Draws Word (·.ReadsOnly Word) (readOrTail budget left)
  and : Reader.Draws Word (·.ReadsOnly Word) (readAnd budget)
  andTail : ∀ left, left.ReadsOnly Word →
    Reader.Draws Word (·.ReadsOnly Word) (readAndTail budget left)
  not : Reader.Draws Word (·.ReadsOnly Word) (readNot budget)
  compare : Reader.Draws Word (·.ReadsOnly Word) (readCompare budget)
  links : Reader.Draws Word (∀ link ∈ ·, link.2.ReadsOnly Word) (readLinks budget)
  sum : Reader.Draws Word (·.ReadsOnly Word) (readSum budget)
  sumTail : ∀ left, left.ReadsOnly Word →
    Reader.Draws Word (·.ReadsOnly Word) (readSumTail budget left)
  product : Reader.Draws Word (·.ReadsOnly Word) (readProduct budget)
  productTail : ∀ left, left.ReadsOnly Word →
    Reader.Draws Word (·.ReadsOnly Word) (readProductTail budget left)
  factor : Reader.Draws Word (·.ReadsOnly Word) (readFactor budget)
  power : Reader.Draws Word (·.ReadsOnly Word) (readPower budget)
  primary : Reader.Draws Word (·.ReadsOnly Word) (readPrimary budget)
  trailers : ∀ value, value.ReadsOnly Word →
    Reader.Draws Word (·.ReadsOnly Word) (readTrailers budget value)
  arguments : ∀ arguments named, (∀ item ∈ arguments, item.ReadsOnly Word) →
    (∀ entry ∈ named, Prod.snd entry |>.ReadsOnly Word) →
    Reader.Draws Word (fun found => (∀ item ∈ found.1, item.ReadsOnly Word) ∧
      ∀ entry ∈ found.2, entry.2.ReadsOnly Word) (readArguments budget arguments named)
  subscript : ∀ value, value.ReadsOnly Word →
    Reader.Draws Word (·.ReadsOnly Word) (readSubscript budget value)
  items : ∀ bracket, Reader.Draws Word (∀ item ∈ ·, item.ReadsOnly Word) (readItems budget bracket)
  entries : Reader.Draws Word (∀ entry ∈ ·, entry.1.ReadsOnly Word ∧ entry.2.ReadsOnly Word)
    (readEntries budget)
  atom : Reader.Draws Word (·.ReadsOnly Word) (readAtom budget)
  parenthesized : Reader.Draws Word (·.ReadsOnly Word) (readParenthesized budget)

end Grammar

section Steps

variable {Word : String → Prop} {budget : Nat} (h : ReadersDraw Word budget)

include h

theorem draws_readTuple : Reader.Draws Word (·.ReadsOnly Word) (readTuple (budget + 1)) :=
  h.expr.bind fun _ hFirst => (draws_nextIs _).bind fun _ _ =>
    .ite (fun _ => h.tupleTail.bind fun _ hOthers =>
        .pure (Expr.only_allReads (List.forall_mem_cons.2 ⟨hFirst, hOthers⟩)))
      fun _ => .pure hFirst

theorem draws_readTupleTail :
    Reader.Draws Word (∀ item ∈ ·, item.ReadsOnly Word) (readTupleTail (budget + 1)) := by
  refine (draws_eat _).bind fun _ _ => .ite (fun _ => ?_) fun _ => .pure nofun
  refine (draws_nextIs _).bind fun _ _ => .ite (fun _ => ?_) fun _ => .pure nofun
  exact h.expr.bind fun _ hItem => h.tupleTail.bind fun _ hOthers =>
    .pure (List.forall_mem_cons.2 ⟨hItem, hOthers⟩)

theorem draws_readExpr : Reader.Draws Word (·.ReadsOnly Word) (readExpr (budget + 1)) := by
  refine h.or.bind fun _ hBody => (draws_eat _).bind fun _ _ =>
    .ite (fun _ => ?_) fun _ => .pure hBody
  refine h.or.bind fun _ hTest => (draws_keyword "else").bind fun _ _ => ?_
  exact h.expr.bind fun _ hOtherwise =>
    .pure (List.forall_mem_append.2 ⟨hTest, List.forall_mem_append.2 ⟨hBody, hOtherwise⟩⟩)

theorem draws_readOr : Reader.Draws Word (·.ReadsOnly Word) (readOr (budget + 1)) :=
  h.and.bind h.orTail

theorem draws_readOrTail (left : Expr) (hLeft : left.ReadsOnly Word) :
    Reader.Draws Word (·.ReadsOnly Word) (readOrTail (budget + 1) left) :=
  (draws_eat _).bind fun _ _ => .ite
    (fun _ => h.and.bind fun _ hRight =>
      h.orTail _ (List.forall_mem_append.2 ⟨hLeft, hRight⟩))
    fun _ => .pure hLeft

theorem draws_readAnd : Reader.Draws Word (·.ReadsOnly Word) (readAnd (budget + 1)) :=
  h.not.bind h.andTail

theorem draws_readAndTail (left : Expr) (hLeft : left.ReadsOnly Word) :
    Reader.Draws Word (·.ReadsOnly Word) (readAndTail (budget + 1) left) :=
  (draws_eat _).bind fun _ _ => .ite
    (fun _ => h.not.bind fun _ hRight =>
      h.andTail _ (List.forall_mem_append.2 ⟨hLeft, hRight⟩))
    fun _ => .pure hLeft

theorem draws_readNot : Reader.Draws Word (·.ReadsOnly Word) (readNot (budget + 1)) :=
  (draws_eat _).bind fun _ _ => .ite (fun _ => h.not.bind fun _ hOperand => .pure hOperand)
    fun _ => h.compare

theorem draws_readCompare : Reader.Draws Word (·.ReadsOnly Word) (readCompare (budget + 1)) := by
  refine h.sum.bind fun left hLeft => h.links.bind fun links hLinks => .pure ?_
  split
  · exact hLeft
  · exact List.forall_mem_append.2 ⟨hLeft, Expr.only_linkReads hLinks⟩

theorem draws_readLinks :
    Reader.Draws Word (∀ link ∈ ·, link.2.ReadsOnly Word) (readLinks (budget + 1)) := by
  refine draws_comparison?.bind fun op _ => ?_
  cases op with
  | none => exact .pure nofun
  | some op =>
      exact h.sum.bind fun _ hRight => h.links.bind fun _ hOthers =>
        .pure (List.forall_mem_cons.2 ⟨hRight, hOthers⟩)

theorem draws_readSum : Reader.Draws Word (·.ReadsOnly Word) (readSum (budget + 1)) :=
  h.product.bind h.sumTail

theorem draws_readSumTail (left : Expr) (hLeft : left.ReadsOnly Word) :
    Reader.Draws Word (·.ReadsOnly Word) (readSumTail (budget + 1) left) := by
  refine (draws_operator? _).bind fun op _ => ?_
  cases op with
  | none => exact .pure hLeft
  | some op =>
      exact h.product.bind fun _ hRight => h.sumTail _ (Expr.readsOnly_binary hLeft hRight)

theorem draws_readProduct : Reader.Draws Word (·.ReadsOnly Word) (readProduct (budget + 1)) :=
  h.factor.bind h.productTail

theorem draws_readProductTail (left : Expr) (hLeft : left.ReadsOnly Word) :
    Reader.Draws Word (·.ReadsOnly Word) (readProductTail (budget + 1) left) := by
  refine (draws_operator? _).bind fun op _ => ?_
  cases op with
  | none => exact .pure hLeft
  | some op =>
      exact h.factor.bind fun _ hRight => h.productTail _ (Expr.readsOnly_binary hLeft hRight)

theorem draws_readFactor : Reader.Draws Word (·.ReadsOnly Word) (readFactor (budget + 1)) := by
  refine (draws_look (Q := fun _ => True) mem_of_mem_signs fun _ _ => trivial).bind fun _ _ => ?_
  exact h.power.bind fun _ hBase => .pure (Expr.readsOnly_signed hBase)

theorem draws_readPower : Reader.Draws Word (·.ReadsOnly Word) (readPower (budget + 1)) :=
  h.primary.bind fun _ hBase => (draws_eat _).bind fun _ _ => .ite
    (fun _ => h.factor.bind fun _ hExponent => .pure (Expr.readsOnly_binary hBase hExponent))
    fun _ => .pure hBase

theorem draws_readPrimary : Reader.Draws Word (·.ReadsOnly Word) (readPrimary (budget + 1)) :=
  h.atom.bind h.trailers

theorem draws_readTrailers (value : Expr) (hValue : value.ReadsOnly Word) :
    Reader.Draws Word (·.ReadsOnly Word) (readTrailers (budget + 1) value) := by
  refine (draws_eat _).bind fun _ _ => .ite (fun _ => ?dot) fun _ =>
    (draws_eat _).bind fun _ _ => .ite (fun _ => ?call) fun _ =>
      (draws_eat _).bind fun _ _ => .ite (fun _ => ?subscript) fun _ => .pure hValue
  case dot =>
    refine draws_peek?.bind fun found _ => ?_
    cases found with
    | none => exact draws_fail _
    | some t =>
        exact draws_advance.bind fun _ _ =>
          .ite (fun _ => h.trailers _ hValue) fun _ => draws_fail _
  case call =>
    refine (h.arguments [] [] nofun nofun).bind fun found hFound => ?_
    refine (draws_close ')').bind fun _ _ => h.trailers _ ?_
    exact List.forall_mem_append.2 ⟨hValue, List.forall_mem_append.2
      ⟨Expr.only_allReads hFound.1, Expr.only_namedReads hFound.2⟩⟩
  case subscript =>
    exact (h.subscript value hValue).bind fun _ hSubscripted =>
      (draws_close ']').bind fun _ _ => h.trailers _ hSubscripted

theorem draws_readArguments (arguments : List Expr) (named : List (String × Expr))
    (hArguments : ∀ item ∈ arguments, item.ReadsOnly Word)
    (hNamed : ∀ entry ∈ named, entry.2.ReadsOnly Word) :
    Reader.Draws Word (fun found => (∀ item ∈ found.1, item.ReadsOnly Word) ∧
      ∀ entry ∈ found.2, entry.2.ReadsOnly Word)
      (readArguments (budget + 1) arguments named) := by
  have hReverse {α : Type} {P : α → Prop} {xs : List α} (hxs : ∀ x ∈ xs, P x) :
      ∀ x ∈ xs.reverse, P x := fun x hx => hxs x (List.mem_reverse.1 hx)
  refine (draws_nextIs _).bind fun _ _ =>
    .ite (fun _ => .pure ⟨hReverse hArguments, hReverse hNamed⟩) fun _ => ?_
  refine draws_argumentName?.bind fun label _ => ?_
  cases label with
  | none =>
      refine .ite (fun _ => draws_fail _) fun _ => h.expr.bind fun value hValue => ?_
      have hMore := List.forall_mem_cons.2 ⟨hValue, hArguments⟩
      exact (draws_eat _).bind fun _ _ => .ite (fun _ => h.arguments _ _ hMore hNamed)
        fun _ => .pure ⟨hReverse hMore, hReverse hNamed⟩
  | some name =>
      refine .ite (fun _ => draws_fail _) fun _ => draws_advance.bind fun _ _ =>
        draws_advance.bind fun _ _ => h.expr.bind fun value hValue => ?_
      have hMore : ∀ entry ∈ (name, value) :: named, entry.2.ReadsOnly Word :=
        List.forall_mem_cons.2 ⟨hValue, hNamed⟩
      exact (draws_eat _).bind fun _ _ => .ite (fun _ => h.arguments _ _ hArguments hMore)
        fun _ => .pure ⟨hReverse hArguments, hReverse hMore⟩

theorem draws_readSubscript (value : Expr) (hValue : value.ReadsOnly Word) :
    Reader.Draws Word (·.ReadsOnly Word) (readSubscript (budget + 1) value) := by
  -- a part that may be left out, and what is read after it
  have hPart {c : Bool} {reader : Reader Expr} {next : Option Expr → Reader Expr}
      (hReader : Reader.Draws Word (·.ReadsOnly Word) reader)
      (hNext : ∀ part, (∀ expr ∈ part, expr.ReadsOnly Word) →
        Reader.Draws Word (·.ReadsOnly Word) (next part)) :
      Reader.Draws Word (·.ReadsOnly Word)
        (if c = true then pure none >>= next else (some <$> reader) >>= next) :=
    .ite (fun _ => hNext none nofun) fun _ =>
      (Draws.map (hReader.mono fun _ hExpr _ hFound => Option.some.inj hFound ▸ hExpr)).bind hNext
  refine (draws_nextIs _).bind fun _ _ => hPart h.tuple fun start hStart =>
    (draws_eat _).bind fun _ _ => .ite (fun _ => ?_) fun _ => ?_
  · refine (draws_nextIs _).bind fun _ _ => hPart h.expr fun stop hStop =>
      (draws_eat _).bind fun _ _ =>
        .ite (fun _ => ?_) fun _ => .pure (Expr.readsOnly_slice hValue hStart hStop nofun)
    refine (draws_nextIs _).bind fun _ _ =>
      .ite (fun _ => .pure (Expr.readsOnly_slice hValue hStart hStop nofun)) fun _ => ?_
    exact h.expr.bind fun _ hStep =>
      .pure (Expr.readsOnly_slice hValue hStart hStop fun _ hFound =>
        Option.some.inj hFound ▸ hStep)
  · cases start with
    | none => exact draws_unexpected
    | some key => exact .pure (List.forall_mem_append.2 ⟨hValue, hStart key rfl⟩)

theorem draws_readItems (bracket : Char) :
    Reader.Draws Word (∀ item ∈ ·, item.ReadsOnly Word) (readItems (budget + 1) bracket) := by
  refine (draws_nextIs _).bind fun _ _ => .ite (fun _ => .pure nofun) fun _ => ?_
  refine h.expr.bind fun _ hItem => (draws_eat _).bind fun _ _ => .ite (fun _ => ?_) fun _ => ?_
  · exact (h.items bracket).bind fun _ hOthers => .pure (List.forall_mem_cons.2 ⟨hItem, hOthers⟩)
  · exact .pure (List.forall_mem_cons.2 ⟨hItem, nofun⟩)

theorem draws_readEntries :
    Reader.Draws Word (∀ entry ∈ ·, entry.1.ReadsOnly Word ∧ entry.2.ReadsOnly Word)
      (readEntries (budget + 1)) := by
  refine (draws_nextIs _).bind fun _ _ => .ite (fun _ => .pure nofun) fun _ => ?_
  refine h.expr.bind fun key hKey => (draws_eat _).bind fun _ _ =>
    .ite (fun _ => draws_fail _) fun _ => h.expr.bind fun value hValue => ?_
  refine (draws_eat _).bind fun _ _ => .ite (fun _ => ?_) fun _ => ?_
  · exact h.entries.bind fun _ hOthers =>
      .pure (List.forall_mem_cons.2 ⟨⟨hKey, hValue⟩, hOthers⟩)
  · exact .pure (List.forall_mem_cons.2 ⟨⟨hKey, hValue⟩, nofun⟩)

theorem draws_readAtom : Reader.Draws Word (·.ReadsOnly Word) (readAtom (budget + 1)) := by
  have hLiteral (literal : Literal) :
      Reader.Draws Word (Expr.ReadsOnly Word) (do advance; return .literal literal) :=
    draws_advance.bind fun _ _ => .pure nofun
  refine draws_peek?.bind fun found hFound => ?_
  cases found with
  | none => exact draws_unexpected
  | some t =>
      cases hKind : t.kind with
      | name =>
          simp only [hKind]
          refine .ite (fun _ => hLiteral _) fun _ => .ite (fun _ => hLiteral _) fun _ =>
            .ite (fun _ => hLiteral _) fun _ => .ite (fun _ => draws_unexpected) fun hWord => ?_
          refine draws_advance.bind fun _ _ => .pure fun name hName => ?_
          rw [List.mem_singleton.1 hName]
          exact hFound t rfl hKind (Bool.eq_false_iff.2 hWord)
      | number =>
          simp only [hKind]
          cases readNumber t.text with
          | ok literal => exact hLiteral literal
          | error fault => exact draws_fail _
      | string =>
          simp only [hKind]
          exact draws_strings.bind fun _ _ => .pure nofun
      | opening =>
          simp only [hKind]
          refine draws_advance.bind fun _ _ => .ite (fun _ => h.parenthesized) fun _ =>
            .ite (fun _ => ?_) fun _ => ?_
          · exact (h.items ']').bind fun _ hItems => (draws_close ']').bind fun _ _ =>
              .pure (Expr.only_allReads hItems)
          · exact h.entries.bind fun _ hEntries => (draws_close '}').bind fun _ _ =>
              .pure (Expr.only_entryReads hEntries)
      | _ =>
          simp only [hKind]
          exact draws_unexpected

theorem draws_readParenthesized :
    Reader.Draws Word (·.ReadsOnly Word) (readParenthesized (budget + 1)) := by
  refine (draws_eat _).bind fun _ _ => .ite (fun _ => .pure nofun) fun _ => ?_
  refine h.expr.bind fun _ hFirst => (draws_eat _).bind fun _ _ =>
    .ite (fun _ => .pure hFirst) fun _ => (draws_eat _).bind fun _ _ =>
      .ite (fun _ => draws_fail _) fun _ => ?_
  exact (h.items ')').bind fun _ hOthers => (draws_close ')').bind fun _ _ =>
    .pure (Expr.only_allReads (List.forall_mem_cons.2 ⟨hFirst, hOthers⟩))

end Steps

/-- No reader of expressions puts in a name that it has not met as a token. -/
theorem readersDraw (Word : String → Prop) (budget : Nat) : ReadersDraw Word budget := by
  induction budget with
  | zero =>
      constructor
      all_goals
        intros
        exact draws_unexpected
  | succ budget ih =>
      exact {
        tuple := draws_readTuple ih
        tupleTail := draws_readTupleTail ih
        expr := draws_readExpr ih
        or := draws_readOr ih
        orTail := draws_readOrTail ih
        and := draws_readAnd ih
        andTail := draws_readAndTail ih
        not := draws_readNot ih
        compare := draws_readCompare ih
        links := draws_readLinks ih
        sum := draws_readSum ih
        sumTail := draws_readSumTail ih
        product := draws_readProduct ih
        productTail := draws_readProductTail ih
        factor := draws_readFactor ih
        power := draws_readPower ih
        primary := draws_readPrimary ih
        trailers := draws_readTrailers ih
        arguments := draws_readArguments ih
        subscript := draws_readSubscript ih
        items := draws_readItems ih
        entries := draws_readEntries ih
        atom := draws_readAtom ih
        parenthesized := draws_readParenthesized ih }

/-! ## Targets and parameters -/

section Parameters

variable {Word : String → Prop}

/-- Targets read no names. -/
theorem draws_targets (budget : Nat) :
    Reader.Draws Word (fun _ => True) (readTarget budget) ∧
      Reader.Draws Word (fun _ => True) (readTargets budget) ∧
      Reader.Draws Word (fun _ => True) (readTargetsTail budget) := by
  induction budget with
  | zero => exact ⟨draws_unexpected, draws_unexpected, draws_unexpected⟩
  | succ budget ih =>
      obtain ⟨hTarget, hTargets, hTail⟩ := ih
      have hGroup (bracket : Char) : Reader.Draws Word (fun _ => True)
          (do let inner ← readTargets budget; close bracket; return inner) :=
        hTargets.bind fun _ _ => (draws_close bracket).bind fun _ _ => .pure trivial
      refine ⟨?_, ?_, ?_⟩
      · exact (draws_eat _).bind fun _ _ => .ite (fun _ => hGroup ')') fun _ =>
          (draws_eat _).bind fun _ _ => .ite (fun _ => hGroup ']') fun _ =>
            .map (draws_identifier.mono fun _ _ => trivial)
      · exact hTarget.bind fun _ _ => (draws_nextIs _).bind fun _ _ =>
          .ite (fun _ => hTail.bind fun _ _ => .pure trivial) fun _ => .pure trivial
      · refine (draws_eat _).bind fun _ _ => .ite (fun _ => ?_) fun _ => .pure trivial
        exact (draws_nextIs _).bind fun _ _ => .ite
          (fun _ => hTarget.bind fun _ _ => hTail.bind fun _ _ => .pure trivial)
          fun _ => .pure trivial

/-- Every name that the default reads is one of the words that are meant. -/
def Parameter.ReadsOnly (Word : String → Prop) (parameter : Parameter) : Prop :=
  ∀ default ∈ parameter.default, default.ReadsOnly Word

theorem only_defaultReads {parameters : List Parameter}
    (h : ∀ parameter ∈ parameters, parameter.ReadsOnly Word) :
    ∀ name ∈ defaultReads parameters, Word name := by
  induction parameters with
  | nil => exact nofun
  | cons parameter parameters ih =>
      obtain ⟨hFirst, hOthers⟩ := List.forall_mem_cons.1 h
      exact List.forall_mem_append.2 ⟨Expr.only_optionalReads hFirst, ih hOthers⟩

theorem draws_readParametersAfter (bracketed : Bool) (budget : Nat) (done : List Parameter)
    (hDone : ∀ parameter ∈ done, parameter.ReadsOnly Word) :
    Reader.Draws Word (∀ parameter ∈ ·, parameter.ReadsOnly Word)
      (readParametersAfter bracketed budget done) := by
  induction budget generalizing done with
  | zero => exact draws_unexpected
  | succ budget ih =>
      have hReverse {done : List Parameter}
          (hDone : ∀ parameter ∈ done, parameter.ReadsOnly Word) :
          ∀ parameter ∈ done.reverse, parameter.ReadsOnly Word :=
        fun parameter hMem => hDone parameter (List.mem_reverse.1 hMem)
      -- what is read after a name and its default
      have hMore (name : String) (default : Option Expr)
          (hDefault : ∀ expr ∈ default, expr.ReadsOnly Word) :
          Reader.Draws Word (∀ parameter ∈ ·, parameter.ReadsOnly Word) (do
            if ← eat (·.isOperator ",") then
              readParametersAfter bracketed budget (⟨name, default⟩ :: done)
            else return (⟨name, default⟩ :: done).reverse) := by
        have hFirst : Parameter.ReadsOnly Word ⟨name, default⟩ := hDefault
        have hDone := List.forall_mem_cons.2 ⟨hFirst, hDone⟩
        exact (draws_eat _).bind fun _ _ => .ite (fun _ => ih _ hDone) fun _ =>
          .pure (hReverse hDone)
      have hNext (atEnd : Bool) : Reader.Draws Word (∀ parameter ∈ ·, parameter.ReadsOnly Word) (do
          if atEnd then return done.reverse
          let name ← identifier
          if done.any (·.name == name) then fail (.duplicateParameter name)
          let default ←
            if ← eat (·.isOperator "=") then some <$> readExpr budget
            else if done.any (·.default.isSome) then fail .defaultOrder
            else pure none
          let done := ⟨name, default⟩ :: done
          if ← eat (·.isOperator ",") then readParametersAfter bracketed budget done
          else return done.reverse) := by
        refine .ite (fun _ => .pure (hReverse hDone)) fun _ => draws_identifier.bind fun name _ =>
          .ite (fun _ => draws_fail _) fun _ => (draws_eat _).bind fun _ _ => .ite (fun _ => ?_)
            fun _ => .ite (fun _ => draws_fail _) fun _ => hMore name none nofun
        exact (Draws.map ((readersDraw Word budget).expr.mono fun _ hExpr _ hFound =>
          Option.some.inj hFound ▸ hExpr)).bind (hMore name)
      exact .ite (fun _ => (draws_nextIs _).bind fun atEnd _ => hNext atEnd) fun _ =>
        (Draws.map (draws_peek?.mono fun _ _ => trivial)).bind (Q := fun _ => True)
          fun atEnd _ => hNext atEnd

theorem draws_readParameterList (budget : Nat) :
    Reader.Draws Word (∀ parameter ∈ ·, parameter.ReadsOnly Word) (readParameterList budget) :=
  (draws_eat _).bind fun _ _ => .ite
    (fun _ => (draws_readParametersAfter true budget [] nofun).bind fun _ hParameters =>
      (draws_close ')').bind fun _ _ => .pure hParameters)
    fun _ => draws_readParametersAfter false budget [] nofun

end Parameters

/-! ## Statements -/

/-- Every name that the statement reads is one of the words that are meant. -/
def Statement.ReadsOnly (Word : String → Prop) (statement : Statement) : Prop :=
  ∀ name ∈ statement.reads, Word name

section Statements

variable {Word : String → Prop}

theorem draws_readAssignment (budget : Nat) (targets : List Target) (last : Expr)
    (hLast : last.ReadsOnly Word) :
    Reader.Draws Word (Statement.ReadsOnly Word) (readAssignment budget targets last) := by
  induction budget generalizing targets last with
  | zero => exact draws_unexpected
  | succ budget ih =>
      refine (draws_nextIs _).bind fun _ _ => .ite (fun _ => ?_) fun _ => .pure hLast
      have hTarget : Reader.Draws Word (fun _ => True) (targetOf last) := by
        unfold targetOf
        cases last.toTarget? with
        | none => exact draws_failAtStart _
        | some target => exact .pure trivial
      exact hTarget.bind fun _ _ => draws_advance.bind fun _ _ =>
        (readersDraw Word budget).tuple.bind fun _ hNext => ih _ _ hNext

theorem draws_readStatement (budget : Nat) :
    Reader.Draws Word (Statement.ReadsOnly Word) (readStatement budget) := by
  refine (readersDraw Word budget).tuple.bind fun first hFirst =>
    draws_augmentedOperator?.bind fun op _ => ?_
  cases op with
  | none =>
      exact (draws_nextIs _).bind fun _ _ => .ite
        (fun _ => draws_readAssignment budget [] first hFirst) fun _ => .pure hFirst
  | some op =>
      cases first with
      | name name =>
          exact (readersDraw Word budget).tuple.bind fun _ hValue =>
            .pure (List.forall_mem_cons.2 ⟨hFirst name (List.mem_singleton_self name), hValue⟩)
      | _ => exact draws_failAtStart _

end Statements

/-! ## Whole texts -/

section Texts

variable {Word : String → Prop} {text : List Char} (hText : ∀ name ∈ namesIn text, Word name)

include hText

/-- What a reader draws from the tokens of a text. -/
theorem draws_run {α : Type} {Q : α → Prop} {reader : Nat → Reader α}
    (h : ∀ budget, Reader.Draws Word Q (reader budget)) :
    Ensures Q (Reader.run reader text) := by
  intro tree hRun
  unfold Reader.run strictTokens at hRun
  simp only at hRun
  split at hRun
  · cases hRun
  · rename_i tokens hTokens
    split at hTokens
    · cases hTokens
    · cases hTokens
      split at hRun
      · rename_i found after hWhole
        cases hRun
        have hDraws (budget : Nat) : Reader.Draws Word Q (do
            let tree ← reader budget
            finish
            return tree) :=
          (h budget).bind fun _ hFound => draws_finish.bind fun _ _ => .pure hFound
        refine (hDraws _ _ (fun t ht hKind hWord => hText _ ?_) _ _ hWhole).1
        have hMem := List.mem_filter.1 ht
        refine List.mem_map.2 ⟨t, List.mem_filter.2 ⟨hMem.1, ?_⟩, rfl⟩
        rw [hKind, hWord]
        rfl
      · cases hRun

theorem Expr.only_read : Ensures (Expr.ReadsOnly Word) (Expr.read text) :=
  draws_run hText fun budget => (readersDraw Word budget).tuple

theorem Expr.only_readAfter (word : String) :
    Ensures (Expr.ReadsOnly Word) (Expr.readAfter word text) :=
  draws_run hText fun budget => (draws_keyword word).bind fun _ _ => (readersDraw Word budget).tuple

theorem Expr.only_readReturn :
    Ensures (fun found => ∀ value ∈ found, Expr.ReadsOnly Word value) (Expr.readReturn text) := by
  refine draws_run hText fun budget => (draws_keyword "return").bind fun _ _ =>
    draws_peek?.bind fun next _ => ?_
  cases next with
  | none => exact .pure nofun
  | some t =>
      exact .map ((readersDraw Word budget).tuple.mono fun _ hValue _ hFound =>
        Option.some.inj hFound ▸ hValue)

theorem only_readForHeader :
    Ensures (fun header => Expr.ReadsOnly Word header.2) (readForHeader text) :=
  draws_run hText fun budget => (draws_keyword "for").bind fun _ _ =>
    (draws_targets budget).2.1.bind fun _ _ => (draws_keyword "in").bind fun _ _ =>
      (readersDraw Word budget).tuple.bind fun _ hValues => .pure hValues

theorem only_readParameters :
    Ensures (∀ parameter ∈ ·, parameter.ReadsOnly Word) (readParameters text) :=
  draws_run hText draws_readParameterList

theorem only_readDefinitionHeader :
    Ensures (fun header => ∀ parameter ∈ header.2, parameter.ReadsOnly Word)
      (readDefinitionHeader text) :=
  draws_run hText fun budget => (draws_keyword "def").bind fun _ _ =>
    draws_identifier.bind fun _ _ => (draws_eat _).bind fun _ _ => .ite
      (fun _ => (draws_readParametersAfter true budget [] nofun).bind fun _ hParameters =>
        (draws_close ')').bind fun _ _ => .pure hParameters)
      fun _ => draws_fail _

theorem Statement.only_read : Ensures (Statement.ReadsOnly Word) (Statement.read text) :=
  draws_run hText draws_readStatement

end Texts

end Stencil
