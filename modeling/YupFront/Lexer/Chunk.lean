import YupFront.Token.Classify

/-! Cutting a text into chunks: separators, symbols and runs of other characters.
Symbols and runs are as long as they can be. -/

namespace YupFront

inductive Chunk where
  | blank (c : Char)
  | symbol (text : List Char)
  | run (text : List Char)
deriving DecidableEq, Repr

namespace Chunk

def text : Chunk → List Char
  | blank c => [c]
  | symbol text => text
  | run text => text

def isBlank : Chunk → Bool
  | blank _ => true
  | _ => false

/-- The operator that begins with `c`, and what follows it. -/
def operator (c : Char) : List Char → Chunk × List Char
  | [] => (symbol [c], [])
  | d :: ds => if combines c d then (symbol [c, d], ds) else (symbol [c], d :: ds)

/-- The chunk that begins with `c`, and what follows it. -/
def cut (c : Char) (cs : List Char) : Chunk × List Char :=
  if isSeparator c then (blank c, cs)
  else if isPunctuation c then (symbol [c], cs)
  else if isOperatorLead c then operator c cs
  else (run (c :: cs.takeWhile isPlain), cs.dropWhile isPlain)

theorem operator_text (c : Char) (cs : List Char) :
    (operator c cs).1.text ++ (operator c cs).2 = c :: cs := by
  cases cs with
  | nil => rfl
  | cons d ds => by_cases h : combines c d <;> simp [operator, h, text]

/-- Nothing is lost and nothing is added. -/
theorem cut_text (c : Char) (cs : List Char) : (cut c cs).1.text ++ (cut c cs).2 = c :: cs := by
  unfold cut
  split
  · rfl
  · split
    · rfl
    · split
      · exact operator_text c cs
      · simp [text]

theorem cut_text_ne_nil (c : Char) (cs : List Char) : (cut c cs).1.text ≠ [] := by
  unfold cut
  split
  · simp [text]
  · split
    · simp [text]
    · split
      · cases cs with
        | nil => simp [operator, text]
        | cons d ds => by_cases h : combines c d <;> simp [operator, h, text]
      · simp [text]

theorem cut_length (c : Char) (cs : List Char) : (cut c cs).2.length ≤ cs.length := by
  have h := congrArg List.length (cut_text c cs)
  have hn := List.length_pos_iff.mpr (cut_text_ne_nil c cs)
  simp only [List.length_append, List.length_cons] at h
  omega

/-- The chunks of a text, behind those already cut. -/
def cutAll (done : List Chunk) : List Char → List Chunk
  | [] => done.reverse
  | c :: cs =>
    let piece := cut c cs
    cutAll (piece.1 :: done) piece.2
termination_by cs => cs.length
decreasing_by
  have := cut_length c cs
  simp only [List.length_cons]
  omega

def ofText (cs : List Char) : List Chunk := cutAll [] cs

end Chunk

end YupFront
