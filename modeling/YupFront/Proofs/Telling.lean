import YupFront.Pipeline.Analysis
import YupFront.Proofs.Journal

/-! Stages that only tell. What such a stage returns and what it tells are the same with any
journal; the journal grows by the events told, each marked with the file in hand, and is otherwise
left as it is. -/

namespace YupFront

namespace Logging

/-- The computation returns `a` and tells the events `es`, whatever the journal. -/
def Tells (m : Logging α) (a : α) (es : List Event) : Prop := ∀ j, m.run j = (a, j.tell es)

def OnlyTells (m : Logging α) : Prop := ∃ a es, m.Tells a es

section Steps

variable {α β : Type} {m : Logging α} {f : α → Logging β}

theorem onlyTells_pure (a : α) : OnlyTells (pure a) := ⟨a, [], fun _ => rfl⟩

theorem onlyTells_log (e : Event) : (log e).OnlyTells := ⟨(), [e], run_log e⟩

theorem onlyTells_logAll (es : List Event) : (logAll es).OnlyTells := ⟨(), es, run_logAll es⟩

theorem OnlyTells.bind (hm : m.OnlyTells) (hf : ∀ a, (f a).OnlyTells) : OnlyTells (m >>= f) := by
  obtain ⟨a, es, hrun⟩ := hm
  obtain ⟨b, more, hmore⟩ := hf a
  refine ⟨b, es ++ more, fun j => ?_⟩
  rw [StateT.run_bind, hrun, j.tell_append]
  exact hmore _

/-- What comes of the computation does not depend on the journal. -/
theorem OnlyTells.result_eq (hm : m.OnlyTells) (j k : Journal) : (m.run j).1 = (m.run k).1 := by
  obtain ⟨a, es, hrun⟩ := hm
  rw [hrun, hrun]

end Steps

end Logging

open Logging

/-! Loading. -/

section Loading

variable (preferences : LoadingPreferences) (host : Host) (path : String) (location : Location)
  (m : FileMetadata)

theorem onlyTells_deny {α : Type} (e : SystemError) (action logged : String)
    (name : String × String) : (deny (α := α) e path action logged name).OnlyTells :=
  (onlyTells_log _).bind fun _ => onlyTells_pure _

theorem onlyTells_locate : (locate host path).OnlyTells := by
  unfold locate
  split
  · exact (onlyTells_log _).bind fun _ => onlyTells_pure _
  · split
    · exact (onlyTells_log _).bind fun _ => onlyTells_pure _
    · split
      · exact (onlyTells_log _).bind fun _ => onlyTells_pure _
      · cases host.canonical path with
        | error e => exact onlyTells_deny path e _ _ _
        | ok location => exact onlyTells_pure _

theorem onlyTells_collectMetadata : (collectMetadata host location).OnlyTells := by
  unfold collectMetadata
  cases host.size location with
  | error e => exact onlyTells_deny _ e _ _ _
  | ok size => exact (onlyTells_log _).bind fun _ => onlyTells_pure _

theorem onlyTells_checkMetadata : (checkMetadata preferences path m).OnlyTells := by
  unfold checkMetadata
  split
  · exact (onlyTells_log _).bind fun _ => onlyTells_pure _
  · split
    · exact (onlyTells_log _).bind fun _ => onlyTells_pure _
    · exact onlyTells_pure _

theorem onlyTells_readSource : (readSource host path location).OnlyTells := by
  unfold readSource
  cases host.readText location with
  | error e => exact onlyTells_deny _ e _ _ _
  | ok source => exact (onlyTells_log _).bind fun _ => onlyTells_pure _

theorem onlyTells_checkLines (source : String) : (checkLines path m source).OnlyTells := by
  unfold checkLines
  dsimp only
  split
  · exact onlyTells_pure _
  · exact (onlyTells_log _).bind fun _ => onlyTells_pure _

theorem onlyTells_load (elapsed : Nat) : (load preferences host elapsed path).OnlyTells := by
  unfold load
  refine (onlyTells_log _).bind fun _ => (onlyTells_locate host path).bind fun located => ?_
  cases located with
  | error e => exact onlyTells_pure _
  | ok location =>
    refine (onlyTells_collectMetadata host location).bind fun collected => ?_
    cases collected with
    | error e => exact onlyTells_pure _
    | ok m =>
      refine (onlyTells_checkMetadata preferences path m).bind fun checked => ?_
      cases checked with
      | error e => exact onlyTells_pure _
      | ok u =>
        refine (onlyTells_readSource host path location).bind fun read => ?_
        cases read with
        | error e => exact onlyTells_pure _
        | ok source =>
          refine (onlyTells_checkLines path m source).bind fun lined => ?_
          cases lined with
          | error e => exact onlyTells_pure _
          | ok loaded => exact (onlyTells_log _).bind fun _ => onlyTells_pure _

end Loading

/-! Lexing and parsing. -/

theorem onlyTells_lex (preferences : LexingPreferences) (elapsed : Nat) (source : String) :
    (lex preferences elapsed source).OnlyTells := by
  unfold lex
  cases Lexed.ofText preferences source with
  | error f => exact onlyTells_pure _
  | ok r => exact (onlyTells_logAll _).bind fun _ => onlyTells_pure _

theorem onlyTells_parseLogged (mode : PositionMode) (traceRules : Bool) (ts : List Token) :
    (parseLogged mode traceRules ts).OnlyTells := by
  unfold parseLogged
  refine (onlyTells_log _).bind fun _ => ?_
  rcases runParser ts with ⟨stall | tree, s⟩
  · exact (onlyTells_logAll _).bind fun _ => onlyTells_pure _
  · exact (onlyTells_logAll _).bind fun _ => (onlyTells_logAll _).bind fun _ => onlyTells_pure _

theorem onlyTells_parseProgram (preferences : ParsingPreferences) (ts : List Token) :
    (parseProgram preferences ts).OnlyTells := by
  unfold parseProgram
  by_cases hempty : ts.isEmpty = true
  · rw [if_pos hempty]
    exact (onlyTells_log _).bind fun _ => onlyTells_pure _
  · rw [if_neg hempty]
    refine (onlyTells_log _).bind fun _ => (onlyTells_parseLogged _ _ ts).bind fun r => ?_
    cases r with
    | error e => exact (onlyTells_log _).bind fun _ => onlyTells_pure _
    | ok parsed => exact onlyTells_pure _

/-! A whole run. -/

theorem onlyTells_analyse (p : Preferences) (elapsed : Nat) (name source : String) :
    (analyse p elapsed name source).OnlyTells := by
  unfold analyse
  by_cases hempty : source.isEmpty = true
  · rw [if_pos hempty]
    exact (onlyTells_log _).bind fun _ => onlyTells_pure _
  · rw [if_neg hempty]
    refine (onlyTells_logAll _).bind fun _ =>
      (onlyTells_lex p.lexing elapsed source).bind fun r => ?_
    cases r with
    | error f => exact onlyTells_pure _
    | ok lexed =>
      simp only
      by_cases hnone : lexed.tokens.isEmpty = true
      · rw [if_pos hnone]
        exact (onlyTells_log _).bind fun _ => onlyTells_pure _
      · rw [if_neg hnone]
        refine (onlyTells_parseProgram p.parsing lexed.tokens).bind fun outcome => ?_
        cases outcome.failure with
        | some e => exact onlyTells_pure _
        | none => exact (onlyTells_log _).bind fun _ => onlyTells_pure _

/-- A run over a file is a stage that only tells, with the file in hand. -/
theorem exists_analyseFile_eq (p : Preferences) (host : Host) (elapsed : Nat) (path : String) :
    ∃ body : Logging (Except Fault (Except Failure Analysis)),
      analyseFile p host elapsed path = withFile ⟨path, 0⟩ body ∧ body.OnlyTells := by
  refine ⟨_, rfl, (onlyTells_log _).bind fun _ =>
    (onlyTells_load p.loading host path elapsed).bind fun r => ?_⟩
  cases r with
  | error e => exact onlyTells_pure _
  | ok loaded =>
    refine (onlyTells_analyse p elapsed path loaded.source).bind fun r => ?_
    rcases r with f | e | found
    · exact onlyTells_pure _
    · exact onlyTells_pure _
    · exact onlyTells_pure _

end YupFront
