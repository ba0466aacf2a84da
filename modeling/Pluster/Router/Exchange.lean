import Pluster.Pool.Pool
import Pluster.Pool.Pipeline

/-!
# One exchange with a node

`execOnNodeOnce` of `pkg/router/router.go` and the part of `execBatchOnNode` that uses a
pooled connection. What the network does is an input. An exchange records, next to what
the caller sees, whether the request left the proxy and whether the node executed it.
-/

namespace Pluster.Router

open Proto Pool

/-- `AskingCmdBytes`. -/
def askingCmdBytes : Bytes := encodeCommandBytes [bytes "ASKING"]

/-- What the network does to the ASK path on a connection. -/
structure AskIO where
  /-- The error of the write of ASKING. -/
  askingErr : Option Bytes := none
  /-- The error of the write of the request or of `Flush`. -/
  writeErr : Option Bytes := none
  /-- What the successive `ReadValue` return. -/
  reads : ℕ → Except Bytes Value

/-- The ASK path of `execOnNodeOnce` between `Get` and `Close`: two commands are written
and the reply to ASKING is read first. -/
def askOnConn (c : Conn) (req : Request) (io : AskIO) : Conn × Except Bytes Value :=
  match io.askingErr with
  | some err => (c.markBroken, .error err)
  | none =>
    let c := c.write [askingCmdBytes]
    match io.writeErr with
    | some err => (c.markBroken, .error err)
    | none =>
      let c := c.write [encodeCommandBytes req.args]
      match io.reads 0 with
      | .error err => (c.markBroken, .error err)
      | .ok askReply =>
        let c := c.readValue
        if askReply.isError then (c, .ok askReply)
        else
          match io.reads 1 with
          | .error err => (c.markBroken, .error err)
          | .ok v => (c.readValue, .ok v)

/-- What the network does to a batch on a connection. -/
structure BatchIO where
  /-- The error of a `WriteCommandBytes`. -/
  writeErr : Option Bytes := none
  /-- The error of `Flush`. -/
  flushErr : Option Bytes := none
  reads : ℕ → Except Bytes Value

/-- The reads of `execBatchOnNode`, from the one with number `i`. -/
def readBatch (reads : ℕ → Except Bytes Value) : ℕ → Conn → List Request → Conn × List Value
  | _, c, [] => (c, [])
  | i, c, req :: batch =>
    match reads i with
    | .error err =>
      (c.markBroken, (req :: batch).map fun _ => .error (bytes "ERR read: " ++ err))
    | .ok v =>
      match readBatch reads (i + 1) c.readValue batch with
      | (c, vs) => (c, v :: vs)

/-- `execBatchOnNode` between `Get` and `Close`. -/
def batchOnConn (c : Conn) (batch : List Request) (io : BatchIO) : Conn × List Value :=
  match io.writeErr with
  | some err => (c.markBroken, batch.map fun _ => .error (bytes "ERR write: " ++ err))
  | none =>
    match io.flushErr with
    | some err => (c.markBroken, batch.map fun _ => .error (bytes "ERR flush: " ++ err))
    | none =>
      readBatch io.reads 0 (c.write (batch.map fun req => encodeCommandBytes req.args)) batch

/-- A call of the ASK path: the error of `Get`, or the connection that it returns. -/
structure AskCall where
  getErr : Option Bytes := none
  conn : Conn := {}
  io : AskIO

/-- What the network and the node do to one call of `execOnNodeOnce`, on either path. -/
structure CallIO where
  pipe : PipeCall
  ask : AskCall
  /-- The node executes the request, if it gets it and does not refuse it. -/
  executes : Bool := true

/-- The replies that prove that the node did not execute the command. -/
def refuses (v : Value) : Bool :=
  v.isMovedError || v.isAskError || v.isClusterDownError || v.isLoadingError

/-- One call of `execOnNodeOnce`. -/
structure Exchange where
  /-- What it returns. -/
  result : Except Bytes Value
  /-- The request was written to a connection. -/
  sent : Bool
  /-- The result is the reply of the node to the request. -/
  own : Bool
  /-- The node executed the request. -/
  executed : Bool

/-- The result is a reply of the node to the request that refuses it. -/
def refused (result : Except Bytes Value) (own : Bool) : Bool :=
  match result with
  | .ok v => own && refuses v
  | .error _ => false

/-- The exchange in which the given things happened. -/
def Exchange.of (io : CallIO) (result : Except Bytes Value) (sent own : Bool) : Exchange where
  result := result
  sent := sent
  own := own
  executed := sent && io.executes && !refused result own

/-- `execOnNodeOnce`. -/
def execOnNodeOnce (io : CallIO) (addr : Bytes) (req : Request) (asking : Bool) : Exchange :=
  if asking then
    match io.ask.getErr with
    | some err => .of io (.error (bytes "get conn from " ++ addr ++ bytes ": " ++ err)) false false
    | none =>
      match askOnConn io.ask.conn req io.ask.io with
      | (c, result) =>
        -- The reply read last is the one to the command written last if none is left.
        .of io result io.ask.io.askingErr.isNone c.InSync
  else
    match io.pipe.serve addr (encodeCommandBytes req.args) with
    | ⟨result, written⟩ => .of io result written true

end Pluster.Router
