import Stencil.Proofs.Unread.Programs
import Stencil.Proofs.Unread.Sessions
import Stencil.Proofs.Unread.Texts

/-!
# Names that a text does not mention

A template looks up names that stand in the code of its text, and no others. So a global that the
text does not mention may have any value, or none: compiling the text ends in the same way, and so
do all later steps of the session, whether they call the template, functions that it left in its
rendering, or something else that uses what it gave.

Values that are not asked for have numbers, too. All numbers after them change, so the endings are
compared without them.

## Main results

* `Session.endings_bare_eq`: globals that a text does not mention may be left out.
* `unmentioned_names_do_not_matter`: and they may have other values.
-/

namespace Stencil

/-- What the name is given does not matter when its values are left out. -/
theorem Entries.filter_insert {α : Type} (name : String) (value : α) (entries : Entries α) :
    (Entries.insert name value entries).filter (·.1 ≠ name) = entries.filter (·.1 ≠ name) := by
  induction entries with
  | nil => simp [Entries.insert]
  | cons entry rest ih =>
      rw [Entries.insert]
      split
      · rename_i hName
        rw [List.filter_cons_of_neg (by simpa using hName),
          List.filter_cons_of_neg (by simpa using hName)]
      · rw [List.filter_cons, List.filter_cons, ih]

/-- A session that compiles a text ends its steps as it does without the globals of a name that the
text does not mention. -/
theorem Session.endings_bare_eq {session : Session} {before after : List Step}
    {text fileName name : String} {globals : List (String × Source)} {escape : Option Escape}
    (hSteps : session.steps = before ++ .compile text fileName globals escape :: after)
    (hName : name ∉ Template.identifiers text) (setting : Setting) :
    (session.endings setting).map Ending.bare =
      (((before ++ .compile text fileName (globals.filter (·.1 ≠ name)) escape :: after).foldl
        (State.advance setting) .initial).endings).map Ending.bare := by
  have hReads (program : Program) (hRead : Program.read (normalizeText text.toList) = .ok program) :
      name ∉ program.reads := fun hMem => hName (Program.reads_subset_identifiers hRead hMem)
  have hBefore := (State.Clears.initial name setting).runAll before
  have hAfter := (hBefore.compile hReads fileName globals escape).runAll after
  rw [Session.endings, Session.state, List.take_length, hSteps, List.foldl_append,
    List.foldl_append]
  exact hAfter.endings_bare_eq

/-- A text does not mention a name. In a session that compiles the text, the name may be given any
value among the globals, new or in place of another one: all steps end in the same way. The names
that a program looks up are mentioned in the text that it was read from, and stand there letter by
letter. -/
theorem unmentioned_names_do_not_matter {session twin : Session} {place : Nat}
    {text fileName name : String} {globals : List (String × Source)} {escape : Option Escape}
    {source : Source}
    (hStep : session.steps[place]? = some (.compile text fileName globals escape))
    (hTwin : twin.steps = session.steps.set place
      (.compile text fileName (Entries.insert name source globals) escape))
    (hName : name ∉ Template.identifiers text) (setting : Setting) :
    (twin.endings setting).map Ending.bare = (session.endings setting).map Ending.bare ∧
      ∀ program, Program.read (normalizeText text.toList) = .ok program →
        ∀ other ∈ program.reads, other ∈ Template.identifiers text ∧
          other.toList <:+: text.toList := by
  refine ⟨?_, fun program hRead other hOther => ?_⟩
  · obtain ⟨hPlace, hHere⟩ := List.getElem?_eq_some_iff.1 hStep
    have hSteps : session.steps = session.steps.take place ++
        .compile text fileName globals escape :: session.steps.drop (place + 1) := by
      rw [← hHere, List.getElem_cons_drop, List.take_append_drop]
    rw [List.set_eq_take_append_cons_drop, if_pos hPlace] at hTwin
    rw [Session.endings_bare_eq hTwin hName, Session.endings_bare_eq hSteps hName,
      Entries.filter_insert]
  · have hMentioned := Program.reads_subset_identifiers hRead hOther
    exact ⟨hMentioned, Template.isInfix_of_mem_identifiers hMentioned⟩

/-- A template is called, and later the function that it leaves in its rendering. -/
def Session.greeting : Session where
  steps := [.keep (.int 1),
    .compile "$def with (x)\n$def shout(y):\n    $y!\n$var loud = shout\nHello $x\n" "page.html" []
      none,
    .call (.result 1) none [.data (.string "a")] [],
    .call (.result 2) (some "loud") [.data (.string "b")] []]
  earlier n step h k hk := by
    match n, h with
    | 0, h => simp_all [← Option.some.inj h, Step.references, Step.sources]
    | 1, h => simp_all [← Option.some.inj h, Step.references, Step.sources]
    | 2, h => simp_all [← Option.some.inj h, Step.references, Step.sources, Source.references]
    | 3, h => simp_all [← Option.some.inj h, Step.references, Step.sources, Source.references]

/-- The same with a global that the text does not mention. -/
def Session.greetingWithSecret : Session where
  steps := Session.greeting.steps.set 1
    (.compile "$def with (x)\n$def shout(y):\n    $y!\n$var loud = shout\nHello $x\n" "page.html"
      (Entries.insert "secret" (.data (.string "s")) []) none)
  earlier n step h k hk := by
    match n, h with
    | 0, h => exact Session.greeting.earlier 0 step h k hk
    | 1, h => simp_all [← Option.some.inj h, Step.references, Step.sources, Entries.insert,
        Source.references]
    | 2, h => exact Session.greeting.earlier 2 step h k hk
    | 3, h => exact Session.greeting.earlier 3 step h k hk

/-- The secret is not seen in what the steps give. -/
theorem secret_not_seen :
    "secret" ∉ Template.identifiers
        "$def with (x)\n$def shout(y):\n    $y!\n$var loud = shout\nHello $x\n" ∧
      (Session.greetingWithSecret.endings ⟨⟨[], [], []⟩, 9⟩).map Ending.bare =
        (Session.greeting.endings ⟨⟨[], [], []⟩, 9⟩).map Ending.bare :=
  have hName : "secret" ∉ Template.identifiers
      "$def with (x)\n$def shout(y):\n    $y!\n$var loud = shout\nHello $x\n" := by
    decide +kernel
  ⟨hName, (unmentioned_names_do_not_matter
    (show Session.greeting.steps[1]? = some (.compile _ _ _ _) from rfl)
    (show Session.greetingWithSecret.steps = _ from rfl) hName _).1⟩

end Stencil
