import AtomicGrid.Wire.Layout

/-!
# Messages from bytes

Model of `MessageDecoder`.  A `Decoder` reads the messages of one byte stream as its pieces come in.
Between two pieces it keeps the message in progress and its position in it.  After an error it
starts afresh.
-/

set_option autoImplicit false

namespace AtomicGrid.Wire

/-- A message in progress: its kind and the fields read so far. -/
structure Draft where
  kind : MessageKind
  body : kind.Body

/-- The position in a stream of messages. -/
structure Decoder where
  reader : Reader := {}
  draft : Option Draft := none

instance : Inhabited Decoder := ⟨{}⟩

/-- What reading fields comes to. -/
inductive Progress (σ : Type) where
  /-- The bytes do not suffice; those not taken up are left. -/
  | paused (reader : Reader) (message : σ) (rest : Bytes)
  /-- All fields are read; the bytes behind them are left. -/
  | done (message : σ) (rest : Bytes)
  /-- A field cannot be read; the bytes behind it are left. -/
  | failed (error : WireError) (rest : Bytes)

/-- Reads fields one after the other as far as the bytes go. -/
def readFields {σ : Type} : List (Slot σ) → Reader → σ → Bytes → Progress σ
  | [], _, m, input => .done m input
  | s :: ss, r, m, input =>
    match r.read s.shape input with
    | (r, rest, none) => .paused r m rest
    | (r, rest, some v) =>
      match s.set v m with
      | .ok m => readFields ss r.advance m rest
      | .error e => .failed e rest

namespace Decoder

def isMidMessage (d : Decoder) : Bool := d.draft.isSome

/-- Reads on in the message in progress. -/
def resume (r : Reader) (draft : Draft) (input : Bytes) :
    Decoder × Bytes × Except WireError (Option Message) :=
  match readFields ((layout draft.kind).drop r.field) r draft.body input with
  | .paused r body rest => ({ reader := r, draft := some ⟨draft.kind, body⟩ }, rest, .ok none)
  | .done body rest => ({}, rest, .ok (some (Message.ofBody draft.kind body)))
  | .failed e rest => ({}, rest, .error e)

/-- Reads the next message: the bytes left over, and the message if it is complete. -/
def next (d : Decoder) (input : Bytes) : Decoder × Bytes × Except WireError (Option Message) :=
  match d.draft with
  | some draft => resume d.reader draft input
  | none =>
    match d.reader.header input with
    | (r, rest, none) => ({ d with reader := r }, rest, .ok none)
    | (r, rest, some (code, count)) =>
      match MessageKind.ofCode? code with
      | none => ({}, rest, .error (.unknownKind code))
      | some kind =>
        if count = fieldCount kind then resume r ⟨kind, kind.blank⟩ rest
        else ({}, rest, .error (.fieldCount count (fieldCount kind)))

/-- What is read from a buffer: the complete messages, the error that ended them, and the bytes
left over. -/
structure Batch where
  decoder : Decoder
  messages : List Message
  error : Option WireError
  rest : Bytes

/-- Reads messages until the bytes run out or one cannot be read. -/
def drain (d : Decoder) (input : Bytes) : Batch :=
  match d.next input with
  | (d, rest, .ok none) => ⟨d, [], none, rest⟩
  | (d, rest, .error e) => ⟨d, [], some e, rest⟩
  | (d, rest, .ok (some m)) =>
    if rest.length < input.length then
      let b := drain d rest
      { b with messages := m :: b.messages }
    else ⟨d, [m], none, rest⟩
  termination_by input.length

end Decoder

end AtomicGrid.Wire
