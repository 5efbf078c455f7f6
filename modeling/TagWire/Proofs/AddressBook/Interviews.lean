import TagWire.Proofs.AddressBook.Lines
import TagWire.Proofs.Records.Completeness
import TagWire.Proofs.Records.Reachability

/-!
Interviews as the program holds them. An interview comes to an end whatever the input is, and all
that it does to the world is to read lines of input and to print.
-/

namespace TagWire.AddressBook

-----------------------------------------------------------------------------------------
-- Interviews that end
-----------------------------------------------------------------------------------------

/-- How an interview ends after finitely many answers, each the next line of an input. -/
inductive Interview.Ends : Interview → Bytes → Except InterviewError Record → Prop
  | done {interview : Interview} {input : Bytes} (done : interview.stage = .done)
    : Ends interview input (.ok interview.person)
  | unreadable {interview : Interview} {input : Bytes} {cause : InterviewError}
    (going : interview.stage ≠ .done) (read : lineText (nextLine input).1 = .error cause)
    : Ends interview input (.error cause)
  | refused {interview : Interview} {input : Bytes} {text : String} {cause : InterviewError}
    (going : interview.stage ≠ .done) (read : lineText (nextLine input).1 = .ok text)
    (answer : interview.answer text = .error cause)
    : Ends interview input (.error cause)
  | answered {interview next : Interview} {input : Bytes} {text remark : String}
    {outcome : Except InterviewError Record} (going : interview.stage ≠ .done)
    (read : lineText (nextLine input).1 = .ok text)
    (answer : interview.answer text = .ok (next, remark))
    (rest : Ends next (nextLine input).2 outcome)
    : Ends interview input outcome

namespace Stage

/-- The stage that an answer leads to, if it is taken. -/
def after (text : String) : Stage → Stage
  | .id => .name
  | .name => .email
  | .email => .phone
  | .phone => if text.isEmpty then .done else .phoneSort text
  | .phoneSort _ => .phone
  | .done => .done

/-- The most blanks that an interview takes before it is done. -/
def patience : Stage → Nat
  | .id => 4
  | .name => 3
  | .email => 2
  | .phone => 1
  | .phoneSort _ => 2
  | .done => 0

theorem patience_after_le (stage : Stage) (text : String)
    : (stage.after text).patience ≤ stage.patience + 1 := by
  cases stage with
  | phone =>
      simp only [after]
      split <;> simp [patience]
  | _ => simp [after, patience]

theorem patience_after_lt {stage : Stage} (going : stage ≠ .done)
    : (stage.after "").patience < stage.patience := by
  cases stage with
  | done => exact absurd rfl going
  | _ => simp [after, patience]

end Stage

namespace Interview

variable {interview next : Interview} {input : Bytes} {text remark : String}
  {outcome : Except InterviewError Record}

/-- The record of a telephone conforms. -/
theorem phoneRecord_conforms {number : String} {sort? : Option Int32} {record : Record}
    (h : phoneRecord number sort? = .ok record)
    : record.Conforms schema := by
  have empty : (Record.empty schema phone).Conforms schema :=
    Record.empty_conforms (rfl : schema.message? phone.name = some phone)
  obtain ⟨numbered, hset, h⟩ := Record.bind_eq_ok h
  have hnumbered := (Record.set_keeps empty (by simp) hset).1
  cases sort? with
  | none => exact Except.ok.inj h ▸ hnumbered
  | some sort => exact (Record.set_keeps hnumbered (by simp) h).1

/-- Where a change of the person is not refused, the interview goes on with it. -/
theorem of_changed {changed : Except RecordError Record} {stage : Stage} {told : String}
    (h
      : (match changed with
          | .ok person => .ok (⟨person, stage⟩, told)
          | .error cause => .error (.record cause) : Except InterviewError (Interview × String))
        = .ok (next, remark))
    : ∃ person, changed = .ok person ∧ next = ⟨person, stage⟩ := by
  cases changed with
  | error cause => cases h
  | ok person => exact ⟨person, rfl, (Prod.mk.inj (Except.ok.inj h)).1.symm⟩

/-- An answer that is taken leads to the next stage, and keeps the person conforming. -/
theorem answer_keeps (h : interview.answer text = .ok (next, remark))
    : next.stage = interview.stage.after text
      ∧ (interview.person.Conforms schema
        → interview.person.Keeps schema next.person) := by
  obtain ⟨person, stage⟩ := interview
  cases stage with
  | id =>
      simp only [answer] at h
      split at h
      · obtain ⟨changed, hset, rfl⟩ := of_changed h
        exact ⟨rfl, fun hc => Record.set_keeps hc (by simp) hset⟩
      · cases h
  | name =>
      obtain ⟨changed, hset, rfl⟩ := of_changed h
      exact ⟨rfl, fun hc => Record.set_keeps hc (by simp) hset⟩
  | email =>
      simp only [answer] at h
      split at h
      · obtain ⟨rfl, _⟩ := Prod.mk.inj (Except.ok.inj h)
        exact ⟨rfl, fun hc => ⟨hc, rfl⟩⟩
      · obtain ⟨changed, hset, rfl⟩ := of_changed h
        exact ⟨rfl, fun hc => Record.set_keeps hc (by simp) hset⟩
  | phone =>
      simp only [answer] at h
      split at h
      all_goals
        next blank =>
          obtain ⟨rfl, _⟩ := Prod.mk.inj (Except.ok.inj h)
          exact ⟨by simp [Stage.after, blank], fun hc => ⟨hc, rfl⟩⟩
  | phoneSort number =>
      obtain ⟨changed, happend, rfl⟩ := of_changed h
      refine ⟨rfl, fun hc => ?_⟩
      obtain ⟨record, hrecord, happend⟩ := Record.bind_eq_ok happend
      refine Record.append_keeps hc ?_ happend
      rintro _ ⟨⟩
      exact phoneRecord_conforms hrecord
  | done =>
      obtain ⟨rfl, _⟩ := Prod.mk.inj (Except.ok.inj h)
      exact ⟨rfl, fun hc => ⟨hc, rfl⟩⟩

/-- The person at the end of an interview conforms if the one at its start does, by induction on
the answers.
-/
theorem Ends.keeps {person : Record} (h : interview.Ends input (.ok person))
    (hc : interview.person.Conforms schema)
    : interview.person.Keeps schema person := by
  generalize he : (.ok person : Except InterviewError Record) = outcome at h
  induction h with
  | done _ =>
      obtain rfl := Except.ok.inj he
      exact ⟨hc, rfl⟩
  | unreadable => cases he
  | refused => cases he
  | answered _ _ answer _ ih =>
      obtain ⟨hnext, same⟩ := (answer_keeps answer).2 hc
      obtain ⟨hperson, type⟩ := ih hnext he
      exact ⟨hperson, type.trans same⟩

-----------------------------------------------------------------------------------------
-- Reading and printing
-----------------------------------------------------------------------------------------

/-- An interview comes to an end. While there is input every answer takes some of it, and then the
blanks wear out the patience of the interview.
-/
theorem exists_ends (interview : Interview) (input : Bytes)
    : ∃ outcome, interview.Ends input outcome := by
  induction hn : 2 * input.length + interview.stage.patience using Nat.strongRecOn
    generalizing interview input with
  | _ bound ih =>
      by_cases going : interview.stage = .done
      · exact ⟨_, .done going⟩
      · cases read : lineText (nextLine input).1 with
        | error cause => exact ⟨_, .unreadable going read⟩
        | ok text =>
            cases answer : interview.answer text with
            | error cause => exact ⟨_, .refused going read answer⟩
            | ok out =>
                obtain ⟨next, remark⟩ := out
                have stage := (answer_keeps answer).1
                have less : 2 * (nextLine input).2.length + next.stage.patience < bound := by
                  rw [stage, ← hn]
                  by_cases nonempty : input = []
                  · subst nonempty
                    obtain rfl : "" = text := Except.ok.inj (lineText_nil.symm.trans read)
                    have worn := Stage.patience_after_lt going
                    exact Nat.add_lt_add_left worn _
                  · have shorter := length_nextLine_lt nonempty
                    have patience := interview.stage.patience_after_le text
                    omega
                obtain ⟨outcome, ends⟩ := ih _ less next (nextLine input).2 rfl
                exact ⟨outcome, .answered going read answer ends⟩

section Scenes

variable {scene after : Scene}

/-- A question and its answer take a line of input, and leave files as they are. -/
theorem turn_eq (interview : Interview) (scene : Scene)
    : ∃ after,
        turn (m := StateM Scene) interview scene
          = ((do return (← interview.answer (← lineText (nextLine scene.input).1)).1), after)
        ∧ after.input = (nextLine scene.input).2
        ∧ after.directory = scene.directory := by
  let heard : Scene :=
    { scene with
      input := (nextLine scene.input).2
      printed := scene.printed ++ interview.stage.prompt }
  cases read : lineText (nextLine scene.input).1 with
  | error cause =>
      refine ⟨heard, ?_, rfl, rfl⟩
      simp only [turn, bind, StateT.bind, Host.say, Host.hear, read]
      rfl
  | ok text =>
      cases answer : interview.answer text with
      | error cause =>
          refine ⟨heard, ?_, rfl, rfl⟩
          simp only [turn, bind, StateT.bind, Except.bind, Host.say, Host.hear, read, answer]
          rfl
      | ok out =>
          refine ⟨{ heard with printed := heard.printed ++ out.2 }, ?_, rfl, rfl⟩
          simp only [turn, bind, StateT.bind, Except.bind, Host.say, Host.hear, read, answer]
          rfl

theorem ask_done (done : interview.stage = .done)
    : ask (m := StateM Scene) interview scene = (.ok interview.person, scene) := by
  rw [ask, repeatM_eq_of_monadTail, repeatM.body, advance, if_pos done]
  rfl

theorem ask_error (going : interview.stage ≠ .done) {cause : InterviewError}
    (turned : turn (m := StateM Scene) interview scene = (.error cause, after))
    : ask (m := StateM Scene) interview scene = (.error cause, after) := by
  rw [ask, repeatM_eq_of_monadTail, repeatM.body, advance, if_neg going]
  simp only [bind, StateT.bind, turned]
  rfl

theorem ask_next (going : interview.stage ≠ .done)
    (turned : turn (m := StateM Scene) interview scene = (.ok next, after))
    : ask (m := StateM Scene) interview scene = ask (m := StateM Scene) next after := by
  rw [ask, repeatM_eq_of_monadTail, repeatM.body, advance, if_neg going]
  simp only [bind, StateT.bind, turned]
  rfl

/-- An interview that is held ends as it has to, and leaves files as they are, by induction on the
answers.
-/
theorem Ends.ask (h : interview.Ends input outcome) (scene : Scene) (same : scene.input = input)
    : ∃ after,
        Interview.ask (m := StateM Scene) interview scene = (outcome, after)
        ∧ after.directory = scene.directory := by
  induction h generalizing scene with
  | done done => exact ⟨scene, ask_done done, rfl⟩
  | @unreadable interview _ cause going read =>
      obtain ⟨after, turned, _, files⟩ := turn_eq interview scene
      rw [same, read] at turned
      exact ⟨after, ask_error going turned, files⟩
  | @refused interview _ text cause going read answer =>
      obtain ⟨after, turned, _, files⟩ := turn_eq interview scene
      simp only [same, read, bind, Except.bind, answer] at turned
      exact ⟨after, ask_error going turned, files⟩
  | @answered interview next _ text remark _ going read answer _ ih =>
      obtain ⟨heard, turned, left, files⟩ := turn_eq interview scene
      simp only [same, read, bind, Except.bind, answer] at turned
      obtain ⟨after, asked, unchanged⟩ := ih heard (by rw [left, same])
      exact ⟨after, (ask_next going turned).trans asked, unchanged.trans files⟩

/-- An interview that is held comes to an end, and how it ends depends on the input only. -/
theorem exists_ask (interview : Interview) (input : Bytes)
    : ∃ outcome,
        interview.Ends input outcome
        ∧ ∀ scene : Scene,
            scene.input = input
            → ∃ after, Interview.ask (m := StateM Scene) interview scene = (outcome, after) := by
  obtain ⟨outcome, ends⟩ := exists_ends interview input
  refine ⟨outcome, ends, fun scene same => ?_⟩
  obtain ⟨after, asked, _⟩ := ends.ask scene same
  exact ⟨after, asked⟩

end Scenes

end Interview

end TagWire.AddressBook
