import Rpcz.FrameStream
import Rpcz.History

/-!
What the broker reads from its peers, frame by frame: handle_router_socket and
handle_dealer_socket on the parts of any sequence of messages, and what a
worker does with a header it cannot use.
-/

namespace Rpcz.PeerFrames
open Message EventLog FrameStream RequestHandlers WorkerThread BrokerThread

structure HandleDataCmd where
  info : ConnectionInfo
  header : Bytes
  payload : Bytes
deriving DecidableEq

def handleSocket (info : ConnectionInfo) : Reader Bytes (Option HandleDataCmd) := do
  let delimiter ← next
  if delimiter.length ≠ 0 then return none
  if !(← hasMore) then return none
  let header ← next
  if ← hasMore then return some ⟨info, header, ← next⟩
  return some ⟨info, header, []⟩

def handleRouterSocket (routerIndex : Nat) : Reader Bytes (Option HandleDataCmd) := do
  let sender ← next
  if !(← hasMore) then return none
  handleSocket (.router routerIndex sender)

def handleDealerSocket (dealerIndex : Nat) : Reader Bytes (Option HandleDataCmd) :=
  handleSocket (.dealer dealerIndex)

/-- The command a message stands for: an empty frame, a header, and the first of
the remaining frames as payload. -/
def dataOf (info : ConnectionInfo) : List Frame → Option HandleDataCmd
  | [] :: header :: rest => some ⟨info, header, rest.headD []⟩
  | _ => none

section Blocks
variable (rest : List (MessagePart Bytes))

theorem handleSocket_at (info : ConnectionInfo) (first : Frame) (others : List Frame) :
    ∃ left, handleSocket info (Iter.at (first :: others) rest) =
      .ok (dataOf info (first :: others), Iter.at left rest) := by
  unfold handleSocket
  cases first with
  | cons byte bytes =>
    exact ⟨others, by simp [dataOf]⟩
  | nil =>
    cases others with
    | nil =>
      exact ⟨[], by simp [dataOf]⟩
    | cons header frames =>
      cases frames with
      | nil =>
        exact ⟨[], by
          simp [dataOf]⟩
      | cons payload unused =>
        exact ⟨unused, by
          simp [dataOf]⟩

theorem handleRouterSocket_at (routerIndex : Nat) (identity : Bytes) (frames : List Frame) :
    ∃ left, handleRouterSocket routerIndex (Iter.at (identity :: frames) rest) =
      .ok (dataOf (.router routerIndex identity) frames, Iter.at left rest) := by
  unfold handleRouterSocket
  cases frames with
  | nil =>
    exact ⟨[], by simp [dataOf]⟩
  | cons first others =>
    obtain ⟨left, done⟩ := handleSocket_at rest (.router routerIndex identity) first others
    refine ⟨left, ?_⟩
    simpa using done

end Blocks

theorem routerMessages_parsed (routerIndex : Nat) (messages : List (Bytes × List Frame))
    (rest : List (MessagePart Bytes)) :
    repeated (withIterator (handleRouterSocket routerIndex)) messages.length
        (messages.flatMap (fun sent => message (sent.1 :: sent.2)) ++ rest) =
      .ok (messages.map (fun sent => dataOf (.router routerIndex sent.1) sent.2), rest) := by
  have whole := repeated_messages (withIterator (handleRouterSocket routerIndex))
    (fun frames => dataOf (.router routerIndex (frames.headD [])) frames.tail)
    (messages.map (fun sent => sent.1 :: sent.2)) rest ?_
  · simpa [List.flatMap_map, Function.comp_def] using whole
  · intro frames member later
    obtain ⟨sent, _, rfl⟩ := List.mem_map.mp member
    obtain ⟨left, done⟩ := handleRouterSocket_at later routerIndex sent.1 sent.2
    exact withIterator_message (List.cons_ne_nil _ _) done

theorem dealerMessages_parsed (dealerIndex : Nat) (messages : List (Frame × List Frame))
    (rest : List (MessagePart Bytes)) :
    repeated (withIterator (handleDealerSocket dealerIndex)) messages.length
        (messages.flatMap (fun sent => message (sent.1 :: sent.2)) ++ rest) =
      .ok (messages.map (fun sent => dataOf (.dealer dealerIndex) (sent.1 :: sent.2)), rest) := by
  have whole := repeated_messages (withIterator (handleDealerSocket dealerIndex))
    (dataOf (.dealer dealerIndex)) (messages.map (fun sent => sent.1 :: sent.2)) rest ?_
  · simpa [List.flatMap_map, Function.comp_def] using whole
  · intro frames member later
    obtain ⟨sent, _, rfl⟩ := List.mem_map.mp member
    obtain ⟨left, done⟩ := handleSocket_at later (.dealer dealerIndex) sent.1 sent.2
    exact withIterator_message (List.cons_ne_nil _ _) done

/-- What the broker of the process model does with a command read from a peer. -/
def pushed (cfg : Config) (broker : Broker) : Option HandleDataCmd → Broker × List Event
  | none => (broker, [])
  | some data =>
    (broker.emit [.push (cfg.getWorkerIndex data.info)
        (.handleData data.info data.header data.payload)],
      [.arrived data.info data.header data.payload])

theorem broker_handleSocket (cfg : Config) (broker : Broker) (info : ConnectionInfo)
    (frames : List Frame) :
    broker.handleSocket cfg info frames = pushed cfg broker (dataOf info frames) := by
  cases frames with
  | nil => rfl
  | cons first others =>
    cases first with
    | cons byte bytes => rfl
    | nil => cases others <;> rfl

theorem broker_handleRouterSocket (cfg : Config) (broker : Broker) (routerIndex : Nat)
    (identity : Bytes) (frames : List Frame) :
    broker.handleRouterSocket cfg routerIndex (identity :: frames) =
      pushed cfg broker (dataOf (.router routerIndex identity) frames) := by
  cases frames with
  | nil => rfl
  | cons first others => exact broker_handleSocket cfg broker _ _

/-- Everything a peer may send is read message by message, and a header without
a use changes nothing. -/
structure InputParsed (cfg : Config) : Prop where
  router : ∀ routerIndex (messages : List (Bytes × List Frame)) rest,
    repeated (withIterator (handleRouterSocket routerIndex)) messages.length
        (messages.flatMap (fun sent => message (sent.1 :: sent.2)) ++ rest) =
      .ok (messages.map (fun sent => dataOf (.router routerIndex sent.1) sent.2), rest)
  dealer : ∀ dealerIndex (messages : List (Frame × List Frame)) rest,
    repeated (withIterator (handleDealerSocket dealerIndex)) messages.length
        (messages.flatMap (fun sent => message (sent.1 :: sent.2)) ++ rest) =
      .ok (messages.map (fun sent => dataOf (.dealer dealerIndex) (sent.1 :: sent.2)), rest)
  routerPushed : ∀ (broker : Broker) routerIndex identity frames,
    broker.handleRouterSocket cfg routerIndex (identity :: frames) =
      pushed cfg broker (dataOf (.router routerIndex identity) frames)
  dealerPushed : ∀ (broker : Broker) dealerIndex frames,
    broker.handleDealerSocket cfg dealerIndex frames =
      pushed cfg broker (dataOf (.dealer dealerIndex) frames)
  ignored : ∀ factories index fresh (worker : Worker) info header payload,
    (∀ parsed, cfg.proto.parseHeader header = some parsed →
        parsed.reqHdr = none ∧ parsed.respHdr = none) →
      worker.exec cfg factories index fresh (.handleData info header payload) =
        ⟨worker, fresh, [], []⟩
  requestOnly : ∀ factories index fresh (worker : Worker) info header payload reqHdr respHdr,
    cfg.proto.parseHeader header = some ⟨some reqHdr, respHdr⟩ →
      worker.exec cfg factories index fresh (.handleData info header payload) =
          worker.handleRequest cfg factories index fresh info reqHdr payload ∧
        (worker.exec cfg factories index fresh (.handleData info header payload)).worker.pending =
          worker.pending

theorem input_parsed (cfg : Config) : InputParsed cfg where
  router := routerMessages_parsed
  dealer := dealerMessages_parsed
  routerPushed := broker_handleRouterSocket cfg
  dealerPushed broker dealerIndex frames := broker_handleSocket cfg broker _ frames
  ignored factories index fresh worker info header payload unused := by
    simp only [Worker.exec, Worker.handleData]
    split
    · rfl
    · next parsed readable =>
      rw [(unused parsed readable).1, (unused parsed readable).2]
  requestOnly factories index fresh worker info header payload reqHdr respHdr readable := by
    have same : worker.exec cfg factories index fresh (.handleData info header payload) =
        worker.handleRequest cfg factories index fresh info reqHdr payload := by
      simp only [Worker.exec, Worker.handleData, readable]
    exact ⟨same, by rw [same]; rfl⟩

end Rpcz.PeerFrames
