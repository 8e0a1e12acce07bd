import YupFront.Lexer.Chunk
import YupFront.Token.Basic

/-! From text to tokens. Every text has tokens: each chunk that is not a separator becomes one, with
the place where it stands. -/

namespace YupFront

/-- The tokens of chunks that begin at character `index` and at `position`, behind tokens already
found. -/
def placeAll (done : List Token) (index : Nat) (position : Position) :
    List Chunk → Except Fault (List Token)
  | [] => .ok done.reverse
  | chunk :: rest =>
    match Span.covering position chunk.text with
    | .error f => .error f
    | .ok span =>
      match addOffset index chunk.text.length with
      | .error f => .error f
      | .ok next =>
        if chunk.isBlank then placeAll done next span.finish rest
        else
          let text := String.ofList chunk.text
          match Token.make (classify text) text index span with
          | .error f => .error f
          | .ok token => placeAll (token :: done) next span.finish rest

/-- The tokens of a text. The only obstacle is a text too long for its lines, columns and
offsets. -/
def tokenize (source : String) : Except Fault (List Token) :=
  placeAll [] 0 .start (Chunk.ofText source.toList)

end YupFront
