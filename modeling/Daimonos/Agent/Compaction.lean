import Mathlib
import Daimonos.Framework.Text
import Daimonos.Providers.Message

namespace Daimonos.Compaction

open Framework Providers

/-- The policy's two threshold computations on the context budget, which the source does
in floating point: when to compact, and how large the kept tail should be. -/
structure CompactionPolicy where
  shouldCompact : Nat → Bool
  targetTokens : Nat

def estCharsPerToken : Nat := 4

def escapedLength (c : Char) : Nat :=
  if c = '"' ∨ c = '\\' ∨ c.toNat ∈ [8, 9, 10, 12, 13] then 2
  else if c.toNat<32 then 6
  else c.utf8Size

def quotedLength (s : String) : Nat := (s.toList.map escapedLength).sum + 2

mutual

def jsonLength : Value → Nat
  | .null => 4
  | .bool b => if b then 4 else 5
  | .number n => (toString n).utf8ByteSize
  | .float text => text.utf8ByteSize
  | .string s => quotedLength s
  | .array items => jsonItems items + 2
  | .object fields => jsonFields fields + 2

def jsonItems : List Value → Nat
  | [] => 0
  | [v] => jsonLength v
  | v::w::rest => jsonLength v + 1 + jsonItems (w::rest)

def jsonFields : List (String × Value) → Nat
  | [] => 0
  | [(k, v)] => quotedLength k + 1 + jsonLength v
  | (k, v) :: f::rest => quotedLength k + 1 + jsonLength v + 1 + jsonFields (f::rest)

end

def estimateBlock : ContentBlock → Nat
  | .text t | .thinking t => t.utf8ByteSize
  | .providerState provider data => provider.utf8ByteSize + jsonLength data
  | .image data mediaType uri =>
    data.utf8ByteSize + mediaType.utf8ByteSize + (uri.map String.utf8ByteSize).getD 0
  | .toolCall id name input => id.utf8ByteSize + name.utf8ByteSize + jsonLength input
  | .toolResult id content _ => id.utf8ByteSize + content.utf8ByteSize

def estimateMessageTokens (m : Message) : Nat :=
  (m.content.map estimateBlock).sum / estCharsPerToken

def estimateTokens (messages : List Message) : Nat := (messages.map estimateMessageTokens).sum

def estimatePromptTokens (system : Option String) (messages : List Message) : Nat :=
  (system.map fun s => s.utf8ByteSize / estCharsPerToken).getD 0 + estimateTokens messages

def isTurnStart (m : Message) : Bool :=
  m.role == .user &&
    match m.content.head? with
    | some (.text _) | some (.image ..) => true
    | _ => false

def turnStarts (messages : List Message) : List Nat :=
  messages.zipIdx.filterMap fun (m, i) => if isTurnStart m then some i else none

def extendTail (messages : List Message) (target : Nat) : Nat → List Nat → Nat
  | cut, [] => cut
  | cut, start::older =>
    if estimateTokens (messages.drop cut) ≥ target then cut
    else extendTail messages target start older

def chooseCut (messages : List Message) (targetTokens : Nat) : Option Nat :=
  match (turnStarts messages).reverse with
  | newest::older =>
    if older = [] then none
    else
      let cut := extendTail messages targetTokens newest older
      if cut > 0 then some cut else none
  | [] => none

def summaryMessage (text : String) : Message :=
  .user ("[Summary of earlier conversation: " ++ text ++ "]")

def dropMarkerMessage : Message :=
  .user "[Earlier conversation truncated — summary unavailable]"

def trim (s : String) : String :=
  String.ofList ((s.toList.dropWhile isWhitespace).reverse.dropWhile isWhitespace).reverse

/-- The summary in a summarizer's answer: its text blocks on lines of their own, trimmed;
`none` for an error or a blank text. -/
def summaryText (resp : LlmResponse) : Option String :=
  if resp.errorMessage.isSome then none
  else
    let texts := resp.content.filterMap fun b =>
      match b with
      | .text t => some t
      | _ => none
    let text := trim ("\n".intercalate texts)
    if text.isEmpty then none else some text

end Daimonos.Compaction
