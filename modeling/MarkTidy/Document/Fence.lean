import MarkTidy.Document.Frontmatter
import MarkTidy.Log
import MarkTidy.Text.Span

/-!
Protection of frontmatter and fenced code. Each fenced block of the body, from three backquotes to
the nearest three after them, is taken out and a token put in its place; after the body has been
worked on, each token is put back to its block. The tokens of one document share a nonce that
the body does not hold.
-/

namespace MarkTidy

open Text

namespace Fence

def mark : Text := ['\x60', '\x60', '\x60']

def delimiters : Delimiters := ⟨mark, mark⟩

/-- How every token with this nonce begins. -/
def tokenStem (nonce : Text) : Text := "%%MYLINT-CODE-".toList ++ nonce ++ ['-']

/-- The token that stands for block number `index`. -/
def token (nonce : Text) (index : Nat) : Text := tokenStem nonce ++ natural index ++ ['%', '%']

/-- Whether no token with this nonce can be mistaken for text of the body. -/
def isFree (body nonce : Text) : Bool := !occursIn (tokenStem nonce) body

/-- The nonces that are tried after the given ones: counters of sixteen hexadecimal digits, one more
than a body can hold. -/
def counters (body : Text) : List Text := (List.range (body.length + 1)).map (hexadecimal 16)

/-- The first free nonce of a list, then of the counters. -/
def chooseNonce (drawn : List Text) (body : Text) : Text :=
  ((drawn ++ counters body).find? (isFree body)).getD []

end Fence

/-- A document with its frontmatter cut off and its fenced blocks replaced by tokens. -/
structure Protected where
  front : Text
  body : Text
  blocks : List Text
  nonce : Text
deriving DecidableEq, Repr

namespace Protected

def token (p : Protected) (index : Nat) : Text := Fence.token p.nonce index

/-- Protects a document with a given nonce. -/
def ofSplit (nonce : Text) (s : Frontmatter.Split) : Protected :=
  let spans := Spans.cut Fence.delimiters s.body
  { front := s.front
    body := spans.renderIdx fun i _ => Fence.token nonce i
    blocks := spans.contents.map fun c => Fence.mark ++ c ++ Fence.mark
    nonce := nonce }

/-- Protects a document with the first free nonce. -/
def ofText (drawn : List Text) (d : Text) : Protected :=
  let s := Frontmatter.split d
  ofSplit (Fence.chooseNonce drawn s.body) s

/-- The record of a protection. -/
def record (p : Protected) : Log.Record where
  level := .debug
  logger := "mylint.protect".toList
  message := "Protected ".toList ++ natural p.blocks.length ++ " code block(s)".toList ++
    (if p.front.isEmpty then [] else " and frontmatter".toList)

/-- Puts the blocks back, the first of them numbered `index`: each token's first occurrence becomes
its block. The second part lists the tokens that were not found. -/
def restoreFrom (nonce : Text) (index : Nat) : List Text → Text → Text × List Nat
  | [], t => (t, [])
  | block :: blocks, t =>
    match replaceFirst? (Fence.token nonce index) block t with
    | some t' => restoreFrom nonce (index + 1) blocks t'
    | none =>
      let r := restoreFrom nonce (index + 1) blocks t
      (r.1, index :: r.2)

def restore (p : Protected) (t : Text) : Text × List Nat := restoreFrom p.nonce 0 p.blocks t

/-- The record of a token that was not found. -/
def lostRecord (index : Nat) : Log.Record where
  level := .warning
  logger := "mylint.protect".toList
  message := "Code block placeholder ".toList ++ natural index ++ " was lost during linting".toList

end Protected

end MarkTidy
