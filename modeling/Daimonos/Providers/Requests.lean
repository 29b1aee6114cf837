import Mathlib
import Daimonos.Providers.Message

namespace Daimonos.Providers

inductive Part (α : Type) where
  | text (text : String)
  | call (id name : String) (arguments : α)
  | result (toolUseId content : String)

namespace Part

variable {α : Type}

def call? : Part α → Option (String × String × α)
  | call id name arguments => some (id, name, arguments)
  | _ => none

def result? : Part α → Option (String × String)
  | result id content => some (id, content)
  | _ => none

end Part

namespace ContentBlock

variable {α : Type}

def part? (encode : Value → α) : ContentBlock → Option (Part α)
  | text t => some (.text t)
  | toolCall id name input => some (.call id name (encode input))
  | toolResult id content _ => some (.result id content)
  | image .. | thinking _ | providerState .. => none

def allowed : Role → ContentBlock → Bool
  | _, text _ => true
  | .user, image .. | .user, toolResult .. => true
  | .assistant, thinking _ | .assistant, providerState .. | .assistant, toolCall .. => true
  | _, _ => false

end ContentBlock

namespace Message

variable {α : Type}

def parts (encode : Value → α) (m : Message) : List (Part α) :=
  m.content.filterMap (ContentBlock.part? encode)

def texts (m : Message) : List String :=
  m.content.filterMap fun
    | .text t => some t
    | _ => none

/-- Every block of the message belongs to its role. -/
def Proper (m : Message) : Prop := ∀ b∈m.content, b.allowed m.role = true

instance (m : Message) : Decidable m.Proper := inferInstanceAs (Decidable (∀ b∈m.content, _))

end Message

namespace Value

def asArray? : Value → Option (List Value)
  | array items => some items
  | _ => none

def strAt? (value : Value) (key : String) : Option String := (value.get? key).bind asStr?

def arrayAt? (value : Value) (key : String) : Option (List Value) := (value.get? key).bind asArray?

end Value

namespace OpenRouter

def providerState : String := "openrouter"

inductive ContentPart where
  | text (text : String) (cacheControl : Bool)
  | imageUrl (url : String) (cacheControl : Bool)

inductive WireContent where
  | null
  | string (text : String)
  | array (parts : List ContentPart)

inductive WireMessage where
  | system (content : WireContent)
  | tool (toolCallId : String) (content : WireContent)
  | user (content : WireContent)
  | assistant (content : WireContent) (toolCalls : List (String × String × String))
      (reasoningDetails : List Value)

def contentPart? : ContentBlock → Option ContentPart
  | .text t => some (.text t false)
  | .image data mediaType _ => some (.imageUrl ("data:" ++ mediaType ++ ";base64," ++ data) false)
  | _ => none

def isImage : ContentBlock → Bool
  | .image .. => true
  | _ => false

def result? : ContentBlock → Option (String × String)
  | .toolResult id content _ => some (id, content)
  | _ => none

/-- The call with its arguments as a JSON text; `display` prints a value. -/
def call? (display : Value → String) : ContentBlock → Option (String × String × String)
  | .toolCall id name input => some (id, name, display input)
  | _ => none

def reasoningOf : ContentBlock → List Value
  | .providerState provider data =>
    if provider=providerState then data.asArray?.getD [] else []
  | _ => []

def messageToWire (display : Value → String) (msg : Message) : List WireMessage :=
  match msg.role with
  | .user =>
    let toolResults := msg.content.filterMap result?
    if toolResults ≠ [] then
      toolResults.map fun (id, content) => .tool id (.string content)
    else if msg.content.any isImage then [.user (.array (msg.content.filterMap contentPart?))]
    else [.user (.string ("\n".intercalate msg.texts))]
  | .assistant =>
    let content : WireContent :=
      if msg.texts = [] then .null else .string ("\n".intercalate msg.texts)
    [.assistant content (msg.content.filterMap (call? display)) (msg.content.flatMap reasoningOf)]

def messagesToWire (display : Value → String) (system : Option String) (messages : List Message) :
    List WireMessage :=
  (system.map fun sys => WireMessage.system (.string sys)).toList ++
    messages.flatMap (messageToWire display)

def ContentPart.cached : ContentPart → ContentPart
  | text t _ => text t true
  | imageUrl url _ => imageUrl url true

def WireContent.cached : WireContent → WireContent
  | null => null
  | string t => array [.text t true]
  | array parts =>
    match parts.getLast? with
    | none => array parts
    | some part => array (parts.dropLast ++ [part.cached])

def WireMessage.cached : WireMessage → WireMessage
  | system content => system content.cached
  | tool id content => tool id content.cached
  | user content => user content.cached
  | assistant content calls details => assistant content.cached calls details

def applyPromptCache (messages : List WireMessage) : List WireMessage :=
  match messages.getLast? with
  | none => messages
  | some message => messages.dropLast ++ [message.cached]

def supportsExplicitPromptCache (model : String) : Bool := model.startsWith "anthropic/"

/-- The messages of a request. -/
def requestMessages (display : Value → String) (promptCache : Bool) (model : String)
    (system : Option String) (messages : List Message) : List WireMessage :=
  let wire := messagesToWire display system messages
  if promptCache && supportsExplicitPromptCache model then applyPromptCache wire else wire

end OpenRouter

namespace OpenAi

def providerState : String := "openai"

inductive InputItem where
  | message (role : Role) (content : List String)
  | functionCallOutput (callId output : String)
  | functionCall (callId name arguments : String)
  | reasoning (state : Value)

def sanitizeReasoningState (data : Value) : Option Value :=
  if data.strAt? "type" ≠ some "reasoning" then none
  else
    (data.strAt? "encrypted_content").map fun encrypted =>
      .object ([("type", .string "reasoning"),
        ("summary", .array ((data.arrayAt? "summary").getD [])),
        ("encrypted_content", .string encrypted)] ++
        ((data.strAt? "id").map fun id => ("id", Value.string id)).toList ++
        ((data.arrayAt? "content").map fun content => ("content", Value.array content)).toList)

structure Converting where
  input : List InputItem
  text : List String

def flushText (role : Role) (c : Converting) : Converting :=
  if c.text = [] then c else ⟨c.input ++ [.message role c.text],[]⟩

def convertBlock (display : Value → String) (role : Role) (c : Converting) :
    ContentBlock → Converting
  | .text value => { c with text := c.text ++ [value] }
  | .toolResult id content _ =>
    if role=.user then
      let c := flushText role c
      { c with input := c.input ++ [.functionCallOutput id content] }
    else c
  | .toolCall id name arguments =>
    if role=.assistant then
      let c := flushText role c
      { c with input := c.input ++ [.functionCall id name (display arguments)] }
    else c
  | .providerState provider data =>
    if role=.assistant ∧ provider=providerState then
      let c := flushText role c
      match sanitizeReasoningState data with
      | some reasoning => { c with input := c.input ++ [.reasoning reasoning] }
      | none => c
    else c
  | .image .. | .thinking _ => c

def convertMessage (display : Value → String) (input : List InputItem) (message : Message) :
    List InputItem :=
  (flushText message.role
    (message.content.foldl (convertBlock display message.role) ⟨input,[]⟩)).input

def messagesToInput (display : Value → String) (messages : List Message) : List InputItem :=
  messages.foldl (convertMessage display) []

end OpenAi

namespace Anthropic

def providerState : String := "anthropic"

def thinkingSignatureState : String := "thinking_signature"

inductive AnthropicBlock where
  | text (text : String) (cacheControl : Bool)
  | image (mediaType data : String) (cacheControl : Bool)
  | thinking (thinking : String) (signature : Option String) (cacheControl : Bool)
  | toolUse (id name : String) (input : Value) (cacheControl : Bool)
  | toolResult (toolUseId content : String) (isError : Option Bool) (cacheControl : Bool)

structure AnthropicMessage where
  role : Role
  content : List AnthropicBlock

def thinkingSignature : Option ContentBlock → Option String
  | some (.providerState provider data) =>
    if provider≠providerState ∨ data.strAt? "type" ≠ some thinkingSignatureState then none
    else (data.strAt? "signature").filter (· ≠ "")
  | _ => none

def contentBlockToAnthropic (block : ContentBlock) (nextBlock : Option ContentBlock)
    (cache : Bool) : Option AnthropicBlock :=
  match block with
  | .text t => some (.text t cache)
  | .image data mediaType _ => some (.image mediaType data cache)
  | .thinking t => some (.thinking t (thinkingSignature nextBlock) cache)
  | .toolCall id name input => some (.toolUse id name input cache)
  | .providerState .. => none
  | .toolResult id content isError =>
    some (.toolResult id content (if isError then some true else none) cache)

def isProviderState : ContentBlock → Bool
  | .providerState .. => true
  | _ => false

def rposition {α : Type} (p : α → Bool) (l : List α) : Option Nat :=
  ((l.zipIdx.filter fun a => p a.1).getLast?).map (·.2)

def messageToAnthropic (msg : Message) (isPrefixBoundary : Bool) : Option AnthropicMessage :=
  let last := rposition (fun block => !isProviderState block) msg.content
  let blocks := msg.content.zipIdx.filterMap fun (block, i) =>
    contentBlockToAnthropic block msg.content[i+1]? (isPrefixBoundary && some i == last)
  if blocks.isEmpty then none else some ⟨msg.role,blocks⟩

/-- The messages of a request; the end of the stable part gets the cache marker. -/
def requestMessages (stablePrefixLen : Nat) (messages : List Message) : List AnthropicMessage :=
  let boundaryIndex :=
    rposition (fun m : Message => m.content.any fun block => !isProviderState block)
      (messages.take stablePrefixLen)
  messages.zipIdx.filterMap fun (msg, i) => messageToAnthropic msg (boundaryIndex == some i)

end Anthropic

end Daimonos.Providers
