import Tabletop.Console
import Tabletop.Proofs.Roll.Certain
import Tabletop.Proofs.Session.Steps

/-!
# Refused lines

What a session or the console is told in vain has no effect on anything that comes after. In a
session, every other line is answered as if the refused one had not been there, with the same rolls.
On the console, blank lines and the questions for help or for the settings have no effect either.
The dice of two dialogues differ, so there the replies are compared where nothing is left to chance.
-/

namespace Tabletop

namespace Session

instance (answer : Answer) : Decidable (∃ e, answer = .refused e) :=
  match answer with
  | .accepted => isFalse nofun
  | .refused e => isTrue ⟨e, rfl⟩
  | .rolled _ => isFalse nofun

variable {ρ ρ' : Type} [Roller ρ] [Roller ρ']

/-- Two sessions with the same settings and engine, each with a roller in a sound state. -/
def Alike (sound : ρ → Prop) (sound' : ρ' → Prop) (s : Session ρ) (s' : Session ρ') : Prop :=
  s.settings = s'.settings ∧ s.engine = s'.engine ∧ sound s.roller ∧ sound' s'.roller

/-- Where nothing is left to chance, a line is answered alike, whatever dice are used. -/
theorem take_of_alike {sound : ρ → Prop} {sound' : ρ' → Prop} (lawful : Roller.Lawful sound)
    (lawful' : Roller.Lawful sound') {s : Session ρ} {s' : Session ρ'}
    (alike : Alike sound sound' s s') {line : Text}
    (certain : isSetting line = false → s.engine.isCertain line = true) :
    (s'.take line).1 = (s.take line).1 ∧ Alike sound sound' (s.take line).2 (s'.take line).2 := by
  obtain ⟨settings, engine, r⟩ := s
  obtain ⟨settings', engine', r'⟩ := s'
  obtain ⟨rfl, rfl, h, h'⟩ :
    settings = settings' ∧ engine = engine' ∧ sound r ∧ sound' r' := alike
  rw [take, take]
  cases hsetting : isSetting line with
  | false =>
    have hsame := engine.evaluate_eq_of_isCertain lawful lawful' (certain hsetting) h h'
    exact ⟨congrArg Answer.rolled hsame.symm, rfl, rfl, engine.sound_evaluate lawful line h,
      engine.sound_evaluate lawful' line h'⟩
  | true =>
    rw [if_pos rfl, if_pos rfl, configure, configure]
    cases settings.configure line with
    | ok t => exact ⟨rfl, rfl, rfl, h, h'⟩
    | error e => exact ⟨rfl, rfl, rfl, h, h'⟩

end Session

namespace Console

variable {ρ ρ' : Type} [Roller ρ] [Roller ρ']

def replies (s : Session ρ) (lines : List Text) : List Printed :=
  (Roller.each (fun line s => take s line) lines s).1

def after (s : Session ρ) (lines : List Text) : Session ρ :=
  lines.foldl (fun s line => (take s line).2) s

/-- Replies in order, each followed by the prompt. -/
def prompted (replies : List Printed) : Printed :=
  replies.foldr (fun shown more => shown ++ ⟨prompt, []⟩ ++ more) .nothing

/-- A line that is blank, asks for help or for the settings, or is refused. -/
def IsIdle (s : Session ρ) (line : Text) : Prop :=
  let line := Text.trim line
  line = [] ∨ line = ":help".toList ∨ line = ":config".toList ∨ ∃ e, (s.take line).1 = .refused e

/-- Nothing is left to chance if the line is rolled. -/
def IsCertain (s : Session ρ) (line : Text) : Prop :=
  let line := Text.trim line
  line ≠ [] → Session.isSetting line = false → s.engine.isCertain line = true

instance (s : Session ρ) (line : Text) : Decidable (IsIdle s line) :=
  inferInstanceAs (Decidable (_ ∨ _ ∨ _ ∨ _))

instance (s : Session ρ) (line : Text) : Decidable (IsCertain s line) :=
  inferInstanceAs (Decidable (_ → _ → _))

theorem answers_eq_prompted (s : Session ρ) (lines : List Text) :
    answers s lines = prompted (replies s lines) := by
  induction lines generalizing s with
  | nil => rfl
  | cons line rest ih => exact congrArg (_ ++ ·) (ih _)

/-- An idle line has no effect. -/
theorem take_of_isIdle {s : Session ρ} {line : Text} (h : IsIdle s line) : (take s line).2 = s := by
  rw [take]
  dsimp only
  split
  · rfl
  · next hhelp =>
    split
    · rfl
    · next hconfig =>
      split
      · rfl
      · next hblank =>
        obtain h | h | h | ⟨e, h⟩ := h
        · exact absurd h hblank
        · exact absurd h hhelp
        · exact absurd h hconfig
        · exact Session.take_of_refused h

theorem take_of_alike {sound : ρ → Prop} {sound' : ρ' → Prop} (lawful : Roller.Lawful sound)
    (lawful' : Roller.Lawful sound') {s : Session ρ} {s' : Session ρ'}
    (alike : Session.Alike sound sound' s s') {line : Text} (certain : IsCertain s line) :
    (take s' line).1 = (take s line).1 ∧
      Session.Alike sound sound' (take s line).2 (take s' line).2 := by
  rw [take, take]
  dsimp only
  split
  · exact ⟨rfl, alike⟩
  · split
    · exact ⟨by rw [alike.1], alike⟩
    · split
      · exact ⟨rfl, alike⟩
      · next hblank =>
        obtain ⟨hanswer, hafter⟩ := Session.take_of_alike lawful lawful' alike (certain hblank)
        exact ⟨congrArg printed hanswer, hafter⟩

/-- Without some of its idle lines, a dialogue goes on as it does with them where nothing is left to
chance, whatever dice are used. -/
theorem replies_remaining {sound : ρ → Prop} {sound' : ρ' → Prop} (lawful : Roller.Lawful sound)
    (lawful' : Roller.Lawful sound') {s : Session ρ} {s' : Session ρ'}
    (alike : Session.Alike sound sound' s s') {lines : List Text} {marks : List Bool}
    (length : marks.length = lines.length)
    (certain : ∀ i line, lines[i]? = some line → IsCertain (after s (lines.take i)) line)
    (idle : ∀ i line, lines[i]? = some line → marks[i]? = some false →
      IsIdle (after s (lines.take i)) line) :
    replies s' (remaining lines marks) = remaining (replies s lines) marks := by
  refine Roller.each_remaining (Session.Alike sound sound') length ?_ ?_ alike
  · intro i line hline hmark now s' halike
    have hnow : (take now line).2 = now := take_of_isIdle (idle i line hline hmark)
    rwa [hnow]
  · intro i line hline _ now s' halike
    exact take_of_alike lawful lawful' halike (certain i line hline)

end Console

namespace Session

variable {ρ ρ' : Type} [Roller ρ] [Roller ρ']

/-- Every line is answered by an engine made for the settings at the start with all accepted lines
before it applied to them, and by the one roller of the session; an accepted line changes nothing
but the setting that it names. All other lines of a session are answered the same if some refused
lines are left out. So are those of the console if idle lines are left out, where nothing is left to
chance. -/
theorem refused_without_effect (settings : Settings) (roller : ρ) (roller' : ρ') :
    let s := start settings roller
    (∀ lines : List Text,
      ((s.run lines).length = lines.length ∧ ∀ i line, lines[i]? = some line →
        ∃ t step, (s.accepted (lines.take i)).foldlM Settings.configure settings = .ok t ∧
          (s.run lines)[i]? = some step ∧ LeadsTo t (s.after (lines.take i)).roller line step) ∧
      ∀ marks : List Bool, marks.length = lines.length →
        (∀ i : Nat, marks[i]? = some false →
          ∃ e later, (s.run lines)[i]? = some (.refused e, later)) →
        s.run (remaining lines marks) = remaining (s.run lines) marks) ∧
    ∀ (sound : ρ → Prop) (sound' : ρ' → Prop), Roller.Lawful sound → Roller.Lawful sound' →
      sound roller → sound' roller' → ∀ (input input' : Text) (marks : List Bool),
        let lines := Console.lines input
        let replies := Console.replies s lines
        marks.length = lines.length → Console.lines input' = remaining lines marks →
        (∀ i line, lines[i]? = some line →
          Console.IsCertain (Console.after s (lines.take i)) line) →
        (∀ i line, lines[i]? = some line → marks[i]? = some false →
          Console.IsIdle (Console.after s (lines.take i)) line) →
        Console.transcript settings roller input =
            ⟨Console.prompt, []⟩ ++ Console.prompted replies ∧
          Console.transcript settings roller' input' =
            ⟨Console.prompt, []⟩ ++ Console.prompted (remaining replies marks) := by
  intro s
  refine ⟨fun lines => ⟨⟨length_run s lines, fun i line hline => ?_⟩, fun marks length refused =>
    run_remaining length refused⟩, ?_⟩
  · obtain ⟨t, haccepted, hafter⟩ := exists_after_eq_start settings roller (lines.take i)
    have hstep := leadsTo_take t (s.after (lines.take i)).roller line
    rw [← hafter] at hstep
    exact ⟨t, _, haccepted, getElem?_run hline s, hstep⟩
  · intro sound sound' lawful lawful' h h' input input' marks lines replies length hlines certain
      idle
    have alike : Alike sound sound' s (start settings roller') :=
      ⟨rfl, rfl, h, h'⟩
    have hreplies := Console.replies_remaining lawful lawful' alike length certain idle
    rw [Console.transcript, Console.transcript, Console.answers_eq_prompted,
      Console.answers_eq_prompted, hlines, hreplies]
    exact ⟨rfl, rfl⟩

/-- A game that nobody knows is refused. With or without that line, the second d6 is the second die
that is drawn. Nor does the line make a difference to a dialogue about dice with one side, and a
blank one makes none either. -/
theorem refused_without_effect_unknown :
    let s := start {} (⟨[4, 2], 0⟩ : Script)
    let told := ["d6".toList, ":system chess".toList, "d6".toList]
    let marks := [true, false, true]
    let input := "2d1\n:system chess\n\n3d1".toList
    let input' := "2d1\n3d1".toList
    let lines := Console.lines input
    let marks' := [true, false, false, true]
    let replies := Console.replies s lines
    ((∀ i : Nat, marks[i]? = some false → ∃ e later, (s.run told)[i]? = some (.refused e, later)) ∧
      Console.lines input' = remaining lines marks' ∧
      (∀ i line, lines[i]? = some line →
        Console.IsCertain (Console.after s (lines.take i)) line) ∧
      ∀ i line, lines[i]? = some line → marks'[i]? = some false →
        Console.IsIdle (Console.after s (lines.take i)) line) ∧
      (s.run (remaining told marks) = remaining (s.run told) marks ∧
        (remaining (s.run told) marks).map (fun step => step.2.roller.played) = [1, 2]) ∧
      Console.transcript {} (⟨[9], 0⟩ : Script) input' =
          ⟨Console.prompt, []⟩ ++ Console.prompted (remaining replies marks') ∧
        (Console.prompted (remaining replies marks')).out =
          "[dice] (2) ← 2d1\n> [dice] (3) ← 3d1\n> ".toList := by
  intro s told marks input input' lines marks' replies
  have refused : ∀ i : Nat, marks[i]? = some false →
      ∃ e later, (s.run told)[i]? = some (.refused e, later) := by
    rintro (_ | _ | _ | i) hmark
    case succ.zero => exact ⟨.unknownSetting ⟨"game system", "chess".toList⟩, _, rfl⟩
    all_goals cases hmark
  have hlines : Console.lines input' = remaining lines marks' := by decide +kernel
  have hplace {i : Nat} {line : Text} (h : lines[i]? = some line) : i < lines.length :=
    (List.getElem?_eq_some_iff.mp h).1
  have certain : ∀ i line, lines[i]? = some line →
      Console.IsCertain (Console.after s (lines.take i)) line := by
    have hall : ∀ i < lines.length, ∀ line ∈ lines[i]?,
        Console.IsCertain (Console.after s (lines.take i)) line := by decide +kernel
    exact fun i line hline => hall i (hplace hline) line hline
  have idle : ∀ i line, lines[i]? = some line → marks'[i]? = some false →
      Console.IsIdle (Console.after s (lines.take i)) line := by
    have hall : ∀ i < lines.length, ∀ line ∈ lines[i]?, marks'[i]? = some false →
        Console.IsIdle (Console.after s (lines.take i)) line := by decide +kernel
    exact fun i line hline => hall i (hplace hline) line hline
  obtain ⟨hsession, hconsole⟩ :=
    refused_without_effect {} (⟨[4, 2], 0⟩ : Script) (⟨[9], 0⟩ : Script)
  obtain ⟨-, hdialogue⟩ := hconsole _ _ Script.lawful Script.lawful trivial trivial input input'
    marks' rfl hlines certain idle
  exact ⟨⟨refused, hlines, certain, idle⟩, ⟨(hsession told).2 marks rfl refused, by decide +kernel⟩,
    hdialogue, by decide +kernel⟩

end Session

end Tabletop
