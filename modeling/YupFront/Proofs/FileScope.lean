import Mathlib.Data.List.Forall2
import YupFront.Proofs.Bounds
import YupFront.Proofs.Telling

/-! The file in hand. While a file is in hand, every event that is logged is marked with it, by
whatever stage; afterwards the file from before is in hand again. Of files in hand one inside the
other, the innermost counts. -/

namespace YupFront

/-- What is written of an event that is logged with a file in hand, or with none. -/
structure Event.Marked (marksFile : Bool) (file : Option FileContext) (e w : Event) : Prop where
  level : w.level = e.level
  code : w.code = e.code
  message : w.message = truncate e.message
  span : w.span = e.span
  marked : marksFile = true → ∀ f ∈ file,
    w.value? "file" = some f.path ∧ w.value? "file_id" = some f.id.repr
  others : ∀ key, key ≠ "file" → key ≠ "file_id" → w.value? key = e.value? key
  unmarked : marksFile = false ∨ file = none → w.context = e.context

theorem Journal.marked_mark (j : Journal) (e : Event) : e.Marked j.marksFile j.file (j.mark e) where
  level := j.level_mark e
  code := j.code_mark e
  message := j.message_mark e
  span := j.span_mark e
  marked := by
    intro hmarks f hf
    have hkeys : j.fileKeys = [("file", f.path), ("file_id", f.id.repr)] := by
      rw [fileKeys, hmarks, Option.mem_def.mp hf]
    rw [mark, Event.value?_withKeys, Event.value?_withKeys, hkeys]
    simp [lookup_pair]
  others := fun _ hfile hid => j.value?_mark e hfile hid
  unmarked := by
    intro h
    have hkeys : j.fileKeys = [] := by
      unfold fileKeys
      rcases h with h | h
      · rw [h]
      · rw [h]
        split <;> trivial
    rw [mark, hkeys]
    rfl

/-- Each of some events as it is written in a journal. -/
theorem Journal.forall₂_marked (j : Journal) (es : List Event) :
    List.Forall₂ (Event.Marked j.marksFile j.file) es (es.map j.mark) := by
  rw [List.forall₂_map_right_iff, List.forall₂_same]
  exact fun e _ => j.marked_mark e

theorem run_withFile (file : FileContext) (body : Logging α) (j : Journal) :
    (withFile file body).run j =
      ((body.run { j with file := some file }).1,
        { (body.run { j with file := some file }).2 with file := j.file }) := rfl

theorem Logging.Tells.withFile {m : Logging α} {a : α} {es : List Event} (h : m.Tells a es)
    (file : FileContext) (j : Journal) : (withFile file m).run j =
      (a, { j with
        events := (es.map { j with file := some file : Journal }.mark).reverse ++ j.events }) := by
  rw [run_withFile, h]
  rfl

/-- Events that are logged and files that are in hand for a while, one inside the other. -/
inductive Task where
  | report (e : Event)
  | within (file : FileContext) (body : List Task)

namespace Task

mutual

def perform : Task → Logging Unit
  | report e => log e
  | within file body => withFile file (performAll body)
termination_by structural t => t

def performAll : List Task → Logging Unit
  | [] => pure ()
  | t :: ts => do
    perform t
    performAll ts
termination_by structural ts => ts

end

mutual

/-- The events of a task in their order, each with the files around it, innermost first. -/
def reports (around : List FileContext) : Task → List (List FileContext × Event)
  | report e => [(around, e)]
  | within file body => allReports (file :: around) body
termination_by structural t => t

def allReports (around : List FileContext) : List Task → List (List FileContext × Event)
  | [] => []
  | t :: ts => reports around t ++ allReports around ts
termination_by structural ts => ts

end

/-- The innermost of the files around an event; without any, the one that was in hand before. -/
def fileOf (j : Journal) (around : List FileContext) : Option FileContext := around.head?.or j.file

/-- What is written of an event with files around it. -/
def written (j : Journal) (x : List FileContext × Event) : Event :=
  { j with file := fileOf j x.1 : Journal }.mark x.2

section Performance

variable (outer : Journal)

mutual

theorem run_perform : ∀ (t : Task) (around : List FileContext) (j : Journal),
    j.marksFile = outer.marksFile → j.file = fileOf outer around →
    (perform t).run j =
      ((), { j with events := ((t.reports around).map (written outer)).reverse ++ j.events })
  | report e, around, j, hmarks, hfile => by
    have hmark : j.mark e = written outer (around, e) := by
      simp only [written, Journal.mark, Journal.fileKeys, hmarks, hfile]
    rw [perform, run_log, Journal.tell, reports, List.map_singleton, List.map_singleton, hmark]
  | within file body, around, j, hmarks, hfile => by
    have hbody := run_performAll body (file :: around) { j with file := some file } hmarks rfl
    rw [perform, run_withFile, hbody]
    rfl

theorem run_performAll : ∀ (ts : List Task) (around : List FileContext) (j : Journal),
    j.marksFile = outer.marksFile → j.file = fileOf outer around →
    (performAll ts).run j =
      ((), { j with events := ((allReports around ts).map (written outer)).reverse ++ j.events })
  | [], _, _, _, _ => rfl
  | t :: ts, around, j, hmarks, hfile => by
    rw [performAll, StateT.run_bind, run_perform t around j hmarks hfile]
    have hrest := run_performAll ts around
      { j with events := ((t.reports around).map (written outer)).reverse ++ j.events } hmarks hfile
    refine hrest.trans ?_
    rw [allReports, List.map_append, List.reverse_append, List.append_assoc]

end

end Performance

end Task

end YupFront
