import Switchyard.Http.Body
import Switchyard.Measure
import Switchyard.Web.Answer
import Switchyard.Web.Intake

/-!
# Conversations

On a web connection requests are read and answered in order until an answer is the last one. Bodies
are skipped: what is there of a body when its request is answered, and once more after that; a body
that is longer ends the conversation. A client that has ended before its request is answered gets no
answer.

A conversation takes the bytes of its client in chunks for which it has made room: `take` is what
happens with a chunk, `pause` when none is there, `stop` when there will be none. It does not read on its
own.
-/

namespace Switchyard

/-- What comes behind the answers so far. -/
inductive Outlook where
  /-- More requests are taken. -/
  | more
  /-- The connection ends. -/
  | ended
  /-- The connection becomes a channel, with or without compression. -/
  | channel (inflates : Bool)
  deriving DecidableEq, Repr

/-- What a conversation waits for. -/
inductive ConversationStage where
  /-- The head of a request. -/
  | head
  /-- The next bytes of a body whose request is to be answered. -/
  | body (r : Request) (body : Body)
  /-- A sign that the client is still there, before its request is answered. -/
  | answer (r : Request)
  /-- The next bytes of a body whose request was answered. -/
  | skip (body : Body) (behind : Outlook)
  deriving DecidableEq, Repr

/-- A conversation. -/
structure Conversation where
  stage : ConversationStage
  /-- Bytes that were taken and not used. -/
  unread : Bytes
  /-- As many of them are known to be no complete head. -/
  known : Nat
  /-- How much is read at a time. -/
  intake : Intake
  /-- All requests so far wanted the connection to stay open. -/
  persistent : Bool
  /-- The version of the last request. -/
  version : HttpVersion
  deriving DecidableEq, Repr

/-- How a conversation goes on: what is sent, and what comes then. -/
structure ConversationStep where
  conversation : Conversation
  output : Bytes
  outlook : Outlook
  /-- The requests that were answered, in order. -/
  asked : List Request
  deriving DecidableEq, Repr

/-- The reaction after the answer to a request. -/
def ConversationStep.after (request : Request) (output : Bytes) (r : ConversationStep) :
    ConversationStep :=
  { r with output := output ++ r.output, asked := request :: r.asked }

/-- What comes when no more requests can be taken. -/
def Outlook.final : Outlook → Outlook
  | more => ended
  | ended => ended
  | channel inflates => channel inflates

/-- A stage leads to those of lower rank without another byte. -/
def ConversationStage.rank : ConversationStage → Nat
  | head => 0
  | answer _ => 1
  | skip .. => 1
  | body .. => 2

namespace Conversation

/-- A conversation that has not begun. -/
def start : Conversation :=
  ⟨.head, [], 0, .start, true, .http11⟩

/-- The most bytes that a head may have before it is complete. -/
def maxHead : Nat := 417792

/-- The bytes with which a client of another version of HTTP begins. It gets no answer. -/
def foreignPreface : Bytes :=
  Bytes.ofString "PRI * HTTP/2.0\r\n\r\nSM\r\n\r\n"

/-- An empty line ends in here. -/
def hasEmptyLine : Bytes → Bool
  | [] => false
  | b :: bs =>
    (b = lineFeed &&
      ([lineFeed].isPrefixOf bs || [carriageReturn, lineFeed].isPrefixOf bs)) || hasEmptyLine bs

/-- Looks at the front of the bytes. When a part of a head was looked at before, it is not looked at
again before there is an empty line. -/
def reading (c : Conversation) : RequestRead :=
  if c.known = 0 ∨ hasEmptyLine (c.unread.drop (c.known - 3)) then Request.read c.unread else .short

/-- Looks for the head of a request, which cannot be as long as one likes. -/
def nextRequest (c : Conversation) : RequestRead :=
  match c.reading with
  | .short => if maxHead ≤ c.unread.length then .fault .headTooLarge c.unread else .short
  | r => r

theorem nextRequest_shortens {c : Conversation} {r : Request} {rest : Bytes}
    (h : c.nextRequest = .request r rest) : rest.length < c.unread.length := by
  unfold nextRequest at h
  split at h
  · split at h <;> cases h
  · unfold reading at h
    split at h
    · exact Request.read_shortens h
    · cases h

theorem rest_le_of_read {body : Body} {bs rest : Bytes} {result : BodyRead}
    (h : body.read bs = result) (hr : result.rest = rest) : rest.length ≤ bs.length := by
  subst h hr
  exact body.length_rest_read_le bs

/-- The conversation ends without another word. -/
def hangUp (c : Conversation) : ConversationStep :=
  ⟨c, [], .ended, []⟩

/-- The answer to a fault, with these bytes left. -/
def refuse (c : Conversation) (e : RequestFault) (rest : Bytes) : ConversationStep :=
  let begins := rest.dropWhile fun b => b = carriageReturn || b = lineFeed
  if foreignPreface.isPrefixOf begins then c.hangUp
  else
    { c.hangUp with
      output := ((Response.ofFault e).adapt c.version false).bytes c.version [] }

/-- What is sent for a request, and what comes behind it. -/
def answer (site : Request → WebAnswer) (c : Conversation) (r : Request) : Bytes × Outlook :=
  let a := site r
  let response := a.response.adapt r.version c.persistent
  if response.isWritable r.method then
    (response.bytes r.version r.method,
      match a.opens r.version with
      | some inflates => .channel inflates
      | none => if response.isLast c.persistent then .ended else .more)
  else ([], .ended)

/-- The conversation at another stage, with these of its bytes left. -/
def go (c : Conversation) (stage : ConversationStage) (unread : Bytes) : Conversation :=
  { c with stage, unread, intake := c.intake.drop (c.unread.length - unread.length) }

/-- The conversation waits for bytes. -/
def await (c : Conversation) (stage : ConversationStage) : ConversationStep :=
  ⟨c.go stage [], [], .more, []⟩

/-- The conversation holds something back for its request, or not. -/
def lend (c : Conversation) (lent : Bool) : Conversation :=
  { c with intake := c.intake.lend lent }

/-- The conversation when its request is answered. -/
def release (c : Conversation) : Conversation :=
  { c with intake := c.intake.release }

/-- What a request waits for whose head was read. -/
def firstStage (r : Request) : ConversationStage :=
  match Body.ofFraming r.framing with
  | none => .answer r
  | some body => .body r body

/-- The conversation with a request whose head was read. -/
def begin (c : Conversation) (r : Request) (rest : Bytes) : Conversation :=
  { (c.go (firstStage r) rest).lend r.keepsHead with
    known := 0
    persistent := c.persistent && r.keepsOpen
    version := r.version }

/-- The conversation behind a request whose end was not found. -/
def giveUp (c : Conversation) (behind : Outlook) (rest : Bytes) : ConversationStep :=
  ⟨c.go .head rest, [], behind.final, []⟩

/-- Goes on with the bytes that are there. -/
def advance (site : Request → WebAnswer) (c : Conversation) : ConversationStep :=
  match _hs : c.stage with
  | .head =>
    match _hr : c.nextRequest with
    | .short => ⟨{ c with known := c.unread.length }, [], .more, []⟩
    | .fault e rest => c.refuse e rest
    | .request r rest => advance site (c.begin r rest)
  | .answer r =>
    if c.unread = [] then c.await (.answer r)
    else
      match c.answer site r with
      | (output, .more) => (advance site (c.go .head c.unread).release).after r output
      | (output, behind) => ⟨c.go .head c.unread, output, behind, [r]⟩
  | .body r body =>
    if r.awaitsContinue then
      let (output, behind) := c.answer site r
      (advance site (c.go (.skip body behind) c.unread).release).after r output
    else
      match _hb : body.read c.unread with
      | .ended rest => advance site ((c.go (.answer r) rest).lend body.isCounted)
      | .hungry body => c.await (.body r body)
      | .part body rest =>
        let (output, behind) := c.answer site r
        (advance site (c.go (.skip body behind) rest).release).after r output
      | .lost rest =>
        let (output, behind) := c.answer site r
        (c.giveUp behind rest).after r output
  | .skip body behind =>
    match _hb : body.read c.unread with
    | .ended rest =>
      match behind with
      | .more => advance site (c.go .head rest)
      | behind => ⟨c.go .head rest, [], behind, []⟩
    | .hungry body => c.await (.skip body behind)
    | .part _ rest => c.giveUp behind rest
    | .lost rest => c.giveUp behind rest
termination_by (c.unread.length, c.stage.rank)
decreasing_by
  · exact Prod.Lex.left _ _ (nextRequest_shortens _hr)
  · rw [_hs]
    exact Prod.Lex.right _ Nat.zero_lt_one
  · rw [_hs]
    exact Prod.Lex.right _ Nat.one_lt_two
  · rw [_hs]
    exact Measure.lex_of_le (rest_le_of_read _hb rfl) Nat.one_lt_two
  · rw [_hs]
    exact Measure.lex_of_le (rest_le_of_read _hb rfl) Nat.one_lt_two
  · rw [_hs]
    exact Measure.lex_of_le (rest_le_of_read _hb rfl) Nat.zero_lt_one

/-- The conversation with room for a chunk. -/
def makeRoom (c : Conversation) : Conversation :=
  { c with intake := c.intake.reserve c.unread.length }

/-- The most bytes of a chunk. -/
def room (c : Conversation) : Nat :=
  c.intake.room c.unread.length

/-- The reaction to a chunk. -/
def take (site : Request → WebAnswer) (c : Conversation) (chunk : Bytes) : ConversationStep :=
  advance site { c with unread := c.unread ++ chunk, intake := c.intake.record chunk.length }

/-- The reaction when no chunk is there. -/
def pause (site : Request → WebAnswer) (c : Conversation) : ConversationStep :=
  match c.stage with
  | .head => ⟨c, [], .more, []⟩
  | .answer r =>
    let (output, behind) := c.answer site r
    ⟨(c.go .head []).release, output, behind, [r]⟩
  | .body r _ =>
    let (output, behind) := c.answer site r
    (c.giveUp behind []).after r output
  | .skip _ behind => c.giveUp behind []

/-- The reaction when no chunk will come. -/
def stop (site : Request → WebAnswer) (c : Conversation) : ConversationStep :=
  match c.stage with
  | .head => c.hangUp
  | .answer _ => c.hangUp
  | .body r _ =>
    let (output, behind) := c.answer site r
    (c.giveUp behind []).after r output
  | .skip _ behind => c.giveUp behind []

end Conversation

end Switchyard
