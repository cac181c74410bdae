import Tabletop.Proofs.Written.Taken
import Tabletop.System

/-!
# Marks and tests

The words that begin at the edge of a word: the marks for hunger dice and for critical hits, and
the tests. In front of them stands a blank or nothing, and their number ends the word. A test may
also begin with the symbol of a comparison.
-/

namespace Tabletop

namespace Written

open Pattern

variable {before : Option Char} {rest : Text}

theorem takes_edge_before {c : Char} (outside : before.any isWordChar = false)
    (hc : isWordChar c = true) (more : Text) : edge.Takes before [] (c :: more) [] :=
  takes_edge (by simp [atWordEdge, outside, hc])

/-- There is an edge behind a number where the word stops. -/
theorem takes_edge_behind (n : Numeral) (stops : Stops rest) :
    edge.Takes (n.text.getLast?.or before) [] rest [] := by
  refine takes_edge ?_
  have hlast : (n.text.getLast?.or before).any isWordChar = true := by
    have hdigit := n.digits _ (List.getLast_mem n.nonempty)
    rw [List.getLast?_eq_some_getLast n.nonempty, Option.some_or]
    exact isWordChar_of_digit hdigit
  have hnext : rest.head?.any isWordChar = false := by
    cases rest with
    | nil => rfl
    | cons c rest => exact isWordChar_of_endsWord (stops c rfl)
  rw [atWordEdge, hlast, hnext]
  rfl

/-- Behind its letter, the pattern of a mark takes a number. -/
theorem takes_marked (n : Numeral) (stops : Stops rest) :
    (seq blanks (seq (group 1 digits) edge)).Takes before n.text rest [(1, n.text)] :=
  (takes_blanks_of_numeral Gap.none n).nil_seq
    (((takes_digits_of_stops n stops).group 1).seq_nil (takes_edge_behind n stops))

theorem takes_hunger (n : Numeral) (outside : before.any isWordChar = false)
    (stops : Stops rest) : hunger.Takes before ('h' :: n.text) rest [(1, n.text)] := by
  have hword : (word "unger").Fails (some 'h') (n.text ++ rest) :=
    fails_of_numeral (by decide) (by decide) n rest
  exact (takes_edge_before outside (by decide) _).nil_seq
    ((takes_one (by decide)).seq (hword.maybe.nil_seq (takes_marked n stops)))

theorem takes_crit (n : Numeral) (outside : before.any isWordChar = false)
    (stops : Stops rest) : crit.Takes before ("crit".toList ++ n.text) rest [(1, n.text)] := by
  have htakes : crit.Takes before (['c'] ++ (['r'] ++ (['i'] ++ (['t'] ++ n.text)))) rest _ :=
    (takes_edge_before outside (by decide) _).nil_seq
      ((takes_one (by decide)).seq ((takes_one (by decide)).seq ((takes_one (by decide)).seq
        ((takes_one (by decide)).seq (takes_marked n stops)))))
  exact htakes

/-- How the target of a test is written; `vs` takes the space behind it. -/
def spelling : Target → CompareOp → Text
  | .vs, _ => ['v', 's', ' ']
  | .ac, _ => ['A', 'C']
  | .kac, _ => ['K', 'A', 'C']
  | .eac, _ => ['E', 'A', 'C']
  | .dc, _ => ['D', 'C']
  | .operator, op => op.symbol.toList

def spacing (target : Target) : Gap := if target = .vs then .none else .space

theorem spelling_append_spacing (t : Test) :
    spelling t.target t.op ++ (spacing t.target).text = t.label.toList ++ [' '] := by
  rw [Test.label]
  cases t.target <;> simp [spelling, spacing, Gap.none, Gap.space]

def testToken (target : Target) (op : CompareOp) (n : Numeral) : Token where
  kind := .test
  raw := spelling target op ++ ((spacing target).text ++ n.text)
  start := 0
  captures := [some (spelling target op), some n.text]

def markToken (kind : Token.Kind) (mark : Text) (n : Numeral) : Token :=
  ⟨kind, mark ++ n.text, 0, [some n.text]⟩

/-- The pattern of a target takes its spelling, if that is a word. -/
theorem takes_name {name : Text}
    (h : name ∈ [['A', 'C'], ['K', 'A', 'C'], ['E', 'A', 'C'], ['D', 'C']]) (more : Text) :
    targetWord.Takes before name (' ' :: more) [] := by
  simp only [List.mem_cons, List.not_mem_nil, or_false] at h
  rcases h with rfl | rfl | rfl | rfl
  all_goals
    intro s _ hs
    obtain ⟨before, text, used, captures⟩ := s
    subst hs
    exact ⟨[], rfl, rfl⟩

theorem takes_vs (n : Numeral) :
    targetWord.Takes before ['v', 's', ' '] (n.text ++ rest) [] := by
  have hname : (anyOf [word "eac", word "kac", word "ac", word "dc"]).Fails (some ' ')
      (n.text ++ rest) :=
    fails_of_numeral (by decide) (by decide) n rest
  have hblanks : blanks.Takes (some 's') [' '] (n.text ++ rest) [] :=
    takes_blanks_of_numeral Gap.space n
  have htakes : (concat (letters "vs" ++
      [blanks, maybe (anyOf [word "eac", word "kac", word "ac", word "dc"])])).Takes before
        (['v'] ++ (['s'] ++ [' '])) (n.text ++ rest) _ :=
    (takes_one (by decide)).seq ((takes_one (by decide)).seq (hblanks.seq_nil hname.maybe))
  exact htakes.alt _

theorem takes_symbol (op : CompareOp) (more : Text) :
    target.Takes before op.symbol.toList (' ' :: more) [] := by
  have hword : (seq edge targetWord).Fails before (op.symbol.toList ++ ' ' :: more) := by
    refine (fails_of_begins (by decide) fun c hc => ?_).edge_seq
    cases op <;> (rw [← Option.some.inj hc]; decide)
  refine Takes.alt_right ?_ hword
  cases op
  all_goals
    intro s _ hs
    obtain ⟨before, text, used, captures⟩ := s
    subst hs
    exact ⟨[], rfl, rfl⟩

theorem takes_target (target : Target) (op : CompareOp) (n : Numeral)
    (outside : before.any isWordChar = false) :
    Pattern.target.Takes before (spelling target op) ((spacing target).text ++ (n.text ++ rest))
      [] := by
  have named {c : Char} {name more : Text} (hc : isWordChar c = true)
      (h : targetWord.Takes before (c :: name) more []) :
      Pattern.target.Takes before (c :: name) more [] :=
    ((takes_edge_before outside hc _).nil_seq h).alt _
  cases target with
  | vs => exact named (by decide) (takes_vs n)
  | operator => exact takes_symbol op _
  | _ => exact named (by decide) (takes_name (by decide) _)

/-- The pattern for tests takes a test with a number for its value. -/
theorem takes_test (target : Target) (op : CompareOp) (n : Numeral)
    (outside : before.any isWordChar = false) (stops : Stops rest) :
    Pattern.test.Takes before (spelling target op ++ ((spacing target).text ++ n.text)) rest
      [(2, n.text), (1, spelling target op)] := by
  have htarget : (group 1 Pattern.target).Takes before (spelling target op)
      ((spacing target).text ++ n.text ++ rest) [(1, spelling target op)] := by
    rw [List.append_assoc]
    exact (takes_target target op n outside).group 1
  exact htarget.seq ((takes_blanks_of_numeral _ n).seq
    (((takes_digits_of_stops n stops).alt _).group 2))

end Written

end Tabletop
