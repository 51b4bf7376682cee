import Mathlib.Data.Nat.Bitwise
import Mathlib.Tactic.Ring
import TreeMiner.Journal.Line
import TreeMiner.Lib.Base128
import TreeMiner.Server.Broker

/-! The broker's packet codec, over the base-128 framing. A SUBACK is the one packet whose length
is written as a single byte. -/

namespace TreeMiner.Server

open Lib

/-! ## Bytes -/

/-- What the codec raises. -/
inductive PacketError
  /-- `ValueError` with one of the codec's own texts -/
  | value (text : String)
  /-- `struct.error` -/
  | format
  | index
  | unicodeDecode
  /-- `bytes` of a number that is not in `range(256)` -/
  | byteRange
deriving DecidableEq, Repr

def CONNACK : Nat := 2
def PUBLISH : Nat := 3
def PUBACK : Nat := 4
def SUBSCRIBE : Nat := 8
def SUBACK : Nat := 9

/-- `bytes` of a list of numbers -/
def toBytes (numbers : List Nat) : Except PacketError (List UInt8) :=
  if ∀ n ∈ numbers, n < 256 then .ok (numbers.map Nat.toUInt8) else .error .byteRange

def bigEndian (n : Nat) : List UInt8 := [(n / 256).toUInt8, (n % 256).toUInt8]

/-- `struct.pack("!H", n)` -/
def packH (n : Nat) : Except PacketError (List UInt8) :=
  if n ≤ 65535 then .ok (bigEndian n) else .error .format

/-- `struct.unpack("!H", data)[0]` -/
def unpackH : List UInt8 → Except PacketError Nat
  | [high, low] => .ok (high.toNat * 256 + low.toNat)
  | _ => .error .format

theorem toBytes_ok {numbers : List Nat} (h : ∀ n ∈ numbers, n < 256) :
    toBytes numbers = .ok (numbers.map Nat.toUInt8) := if_pos h

theorem packH_ok {n : Nat} (h : n ≤ 65535) : packH n = .ok (bigEndian n) := if_pos h

@[simp] theorem bigEndian_length (n : Nat) : (bigEndian n).length = 2 := rfl

theorem unpackH_bigEndian {n : Nat} (h : n ≤ 65535) : unpackH (bigEndian n) = .ok n := by
  have hhigh := Base128.toNat_toUInt8 (show n / 256 < 256 by omega)
  have hlow := Base128.toNat_toUInt8 (show n % 256 < 256 by omega)
  rw [bigEndian, unpackH, hhigh, hlow]
  congr 1
  omega

/-! ## The remaining length -/

def encodeRemainingLength (length : Nat) : List UInt8 :=
  let byte := length % 128
  if 0 < length / 128 then (byte ||| 0x80).toUInt8 :: encodeRemainingLength (length / 128)
  else [byte.toUInt8]
termination_by length

/-- The loop of `_decode_remaining_length`: the value and the index behind it. -/
def decodeRemainingLoop (data : List UInt8) (multiplier value idx : Nat) :
    Except PacketError (Nat × Nat) :=
  if h : idx < data.length then
    let encodedByte := data.get ⟨idx, h⟩
    let value := value + (encodedByte &&& 0x7F).toNat * multiplier
    if encodedByte &&& 0x80 = 0 then .ok (value, idx + 1)
    else decodeRemainingLoop data (multiplier * 128) value (idx + 1)
  else .error (.value "Incomplete remaining length")
termination_by data.length - idx

/-- The remaining length at `offset` and how many bytes it takes. -/
def decodeRemainingLength (data : List UInt8) (offset : Nat) : Except PacketError (Nat × Nat) :=
  (decodeRemainingLoop data 1 0 offset).map fun r => (r.1, r.2 - offset)

theorem or_high {n : Nat} (h : n < 128) : n ||| 0x80 = n + 128 := by
  have : ∀ k < 128, k ||| 0x80 = k + 128 := by decide
  exact this n h

theorem toNat_and_low (b : UInt8) : (b &&& 0x7F).toNat = b.toNat % 128 := by
  rw [UInt8.toNat_and]
  exact Nat.and_two_pow_sub_one_eq_mod b.toNat 7

theorem and_high_eq_zero_iff (b : UInt8) : b &&& 0x80 = 0 ↔ b.toNat < 128 := by
  have hand : (b &&& 0x80).toNat = (b.toNat.testBit 7).toNat * 2 ^ 7 := by
    rw [UInt8.toNat_and]
    exact Nat.and_two_pow b.toNat 7
  have hbit : b.toNat.testBit 7 = decide (128 ≤ b.toNat) := by
    rw [Nat.testBit_eq_decide_div_mod_eq]
    have := b.toNat_lt
    simp only [decide_eq_decide]
    omega
  rw [← UInt8.toNat_inj, hand, hbit]
  by_cases h : 128 ≤ b.toNat
  · simp [h]
  · simp [h, not_le.1 h]

theorem encodeRemainingLength_eq (length : Nat) :
    encodeRemainingLength length = Base128.encode length := by
  induction length using Base128.encode.induct with
  | case1 n h =>
    rw [encodeRemainingLength, Base128.encode, if_neg (by omega), if_pos h, Nat.mod_eq_of_lt h]
  | case2 n h ih =>
    rw [encodeRemainingLength, Base128.encode, if_pos (by omega), if_neg h, ih,
      or_high (Nat.mod_lt _ (by decide))]

/-- The loop reads the number in front of what lies behind the index. -/
theorem decodeRemainingLoop_eq (data : List UInt8) (multiplier value idx : Nat) :
    decodeRemainingLoop data multiplier value idx =
      match Base128.decode (data.drop idx) with
      | some (n, rest) => .ok (value + n * multiplier, data.length - rest.length)
      | none => .error (.value "Incomplete remaining length") := by
  induction multiplier, value, idx using decodeRemainingLoop.induct data with
  | case1 multiplier value idx h byte hlast =>
    have hbyte : byte.toNat < 128 := (and_high_eq_zero_iff byte).1 hlast
    have hdrop : data.drop idx = byte :: data.drop (idx + 1) := List.drop_eq_getElem_cons h
    rw [decodeRemainingLoop, dif_pos h, if_pos hlast, hdrop, Base128.decode_last hbyte,
      toNat_and_low, Nat.mod_eq_of_lt hbyte]
    simp only [List.length_drop]
    congr 2
    omega
  | case2 multiplier value idx h byte value' hmore ih =>
    have hbyte : ¬ byte.toNat < 128 := fun hlt => hmore ((and_high_eq_zero_iff byte).2 hlt)
    have hdrop : data.drop idx = byte :: data.drop (idx + 1) := List.drop_eq_getElem_cons h
    rw [decodeRemainingLoop, dif_pos h, if_neg hmore, ih, hdrop, Base128.decode_more hbyte]
    cases Base128.decode (data.drop (idx + 1)) with
    | none => rfl
    | some r =>
      simp only [Option.map_some, value', byte, toNat_and_low, List.get_eq_getElem]
      congr 2
      ring
  | case3 multiplier value idx h =>
    rw [decodeRemainingLoop, dif_neg h, List.drop_eq_nil_of_le (by omega)]
    rfl

theorem decodeRemainingLength_encode (front back : List UInt8) (n : Nat) :
    decodeRemainingLength (front ++ encodeRemainingLength n ++ back) front.length =
      .ok (n, (encodeRemainingLength n).length) := by
  rw [decodeRemainingLength, decodeRemainingLoop_eq, List.append_assoc, List.drop_left,
    encodeRemainingLength_eq, Base128.decode_encode]
  simp only [Except.map, List.length_append]
  congr 2 <;> omega

/-! ## Strings -/

def encodeUtf8String (s : String) : Except PacketError (List UInt8) := do
  let encoded := utf8 s.toList
  return (← packH encoded.length) ++ encoded

/-- The string at `offset` and the offset behind it. -/
def decodeUtf8String (data : List UInt8) (offset : Nat) : Except PacketError (String × Nat) :=
  if data.length < offset + 2 then .error (.value "Incomplete UTF-8 string length")
  else
    match unpackH ((data.drop offset).take 2) with
    | .error e => .error e
    | .ok strLen =>
      if data.length < offset + 2 + strLen then .error (.value "Incomplete UTF-8 string")
      else
        match fromUtf8 ((data.drop (offset + 2)).take strLen) with
        | some s => .ok (s, offset + 2 + strLen)
        | none => .error .unicodeDecode

/-- `s` on the wire, if its length fits into two bytes. -/
def utf8String (s : String) : List UInt8 := bigEndian (utf8 s.toList).length ++ utf8 s.toList

theorem encodeUtf8String_ok {s : String} (h : (utf8 s.toList).length ≤ 65535) :
    encodeUtf8String s = .ok (utf8String s) := by
  rw [encodeUtf8String, packH_ok h]
  rfl

theorem utf8String_length (s : String) :
    (utf8String s).length = 2 + (utf8 s.toList).length := by
  rw [utf8String, List.length_append, bigEndian_length]

theorem decodeUtf8String_encoded {s : String} (h : (utf8 s.toList).length ≤ 65535)
    (front back : List UInt8) :
    decodeUtf8String (front ++ (utf8String s ++ back)) front.length =
      .ok (s, (front ++ utf8String s).length) := by
  have hsize := utf8String_length s
  have hlength : (front ++ (utf8String s ++ back)).length =
      front.length + 2 + (utf8 s.toList).length + back.length := by
    simp only [List.length_append, hsize]
    omega
  have htake : ((front ++ (utf8String s ++ back)).drop front.length).take 2 =
      bigEndian (utf8 s.toList).length := by
    rw [List.drop_left, utf8String, List.append_assoc]
    exact List.take_left' rfl
  have hdrop : ((front ++ (utf8String s ++ back)).drop (front.length + 2)).take
      (utf8 s.toList).length = utf8 s.toList := by
    rw [← List.drop_drop, List.drop_left, utf8String, List.append_assoc,
      List.drop_left' (bigEndian_length _), List.take_left]
  rw [decodeUtf8String, if_neg (by omega), htake, unpackH_bigEndian h]
  dsimp only
  rw [if_neg (by omega), hdrop, fromUtf8_utf8, String.ofList_toList]
  dsimp only
  rw [List.length_append, hsize, Nat.add_assoc]

/-- What a string read by the codec takes up. -/
theorem decodeUtf8String_offset {data : List UInt8} {offset next : Nat} {s : String}
    (h : decodeUtf8String data offset = .ok (s, next)) : offset < next := by
  rw [decodeUtf8String] at h
  split at h
  · cases h
  · split at h
    · cases h
    · split at h
      · cases h
      · split at h
        · cases h
          omega
        · cases h

/-! ## The packet loop -/

/-- The bytes of a remaining length as the loop collects them; `none` at the end of the stream. -/
def readRemainingBytes : List UInt8 → Option (List UInt8 × List UInt8)
  | [] => none
  | b :: stream =>
    if b &&& 0x80 = 0 then some ([b], stream)
    else (readRemainingBytes stream).map fun r => (b :: r.1, r.2)

/-- A packet as the loop hands it to a handler. -/
structure Packet where
  pktType : Nat
  flags : Nat
  body : List UInt8
deriving DecidableEq, Repr

def Packet.ofHeader (header : UInt8) (body : List UInt8) : Packet :=
  ⟨header.toNat >>> 4 &&& 0x0F, header.toNat &&& 0x0F, body⟩

/-- One turn of the loop: the packet in front of the stream and the stream behind it. -/
def readPacket : List UInt8 → Option (Packet × List UInt8)
  | [] => none
  | header :: stream =>
    match readRemainingBytes stream with
    | none => none
    | some (remainingBytes, stream) =>
      match decodeRemainingLength remainingBytes 0 with
      | .error _ => none
      | .ok (remainingLen, _) =>
        if stream.length < remainingLen then none
        else some (.ofHeader header (stream.take remainingLen), stream.drop remainingLen)

/-- What the loop collects is a length, and it leaves what the length leaves. -/
theorem decode_readRemainingBytes (stream : List UInt8) :
    Base128.decode stream = (readRemainingBytes stream).bind fun r =>
      (Base128.decode r.1).map fun n => (n.1, r.2) := by
  induction stream with
  | nil => rfl
  | cons b stream ih =>
    rw [readRemainingBytes]
    by_cases hb : b.toNat < 128
    · rw [if_pos ((and_high_eq_zero_iff b).2 hb), Base128.decode_last hb]
      simp [Base128.decode_last hb]
    · rw [if_neg fun h => hb ((and_high_eq_zero_iff b).1 h), Base128.decode_more hb, ih]
      cases readRemainingBytes stream with
      | none => rfl
      | some r =>
        simp [Base128.decode_more hb, Function.comp_def]

theorem readPacket_eq (stream : List UInt8) :
    readPacket stream =
      (Base128.unframe stream).map fun r => (.ofHeader r.1.1 r.1.2, r.2) := by
  cases stream with
  | nil => rfl
  | cons header stream =>
    rw [readPacket, Base128.unframe, decode_readRemainingBytes]
    cases readRemainingBytes stream with
    | none => rfl
    | some r =>
      obtain ⟨remainingBytes, rest⟩ := r
      simp only [decodeRemainingLength, decodeRemainingLoop_eq, List.drop_zero, Option.bind_some]
      cases Base128.decode remainingBytes with
      | none => rfl
      | some n =>
        simp only [Except.map, Option.map_some, Nat.zero_add, Nat.mul_one]
        by_cases hlen : n.1 ≤ rest.length
        · rw [if_neg (by omega), if_pos hlen]
          rfl
        · rw [if_pos (by omega), if_neg hlen]
          rfl

/-! ## PUBLISH -/

def buildPublishPacket (topic : String) (payload : List UInt8) (qos : Nat) :
    Except PacketError (List UInt8) := do
  let topicBytes ← encodeUtf8String topic
  let flags := if 0 < qos then qos <<< 1 else 0
  let variableHeader ← if 0 < qos then (packH 0).map fun id => topicBytes ++ id else .ok topicBytes
  let remaining := variableHeader ++ payload
  let firstByte ← toBytes [PUBLISH <<< 4 ||| flags]
  return firstByte ++ encodeRemainingLength remaining.length ++ remaining

/-- What `_handle_publish` reads off a packet. -/
structure Publication where
  topic : String
  qos : Nat
  packetId : Option Nat
  payload : List UInt8
deriving DecidableEq, Repr

/-- The front of `_handle_publish`, up to the PUBACK. -/
def parsePublish (flags : Nat) (body : List UInt8) : Except PacketError Publication := do
  let (topic, offset) ← decodeUtf8String body 0
  let qos := flags >>> 1 &&& 0x03
  if 0 < qos then
    let packetId ← unpackH ((body.drop offset).take 2)
    return ⟨topic, qos, some packetId, body.drop (offset + 2)⟩
  else return ⟨topic, qos, none, body.drop offset⟩

/-- What stands behind the topic. -/
def Publication.tail (qos : Nat) (payload : List UInt8) : List UInt8 :=
  if 0 < qos then bigEndian 0 ++ payload else payload

theorem buildPublishPacket_eq {topic : String} {qos : Nat}
    (htopic : (utf8 topic.toList).length ≤ 65535) (hqos : qos ≤ 1) (payload : List UInt8) :
    buildPublishPacket topic payload qos =
      .ok (Base128.frame (0x30 + 2 * qos).toUInt8
        (utf8String topic ++ Publication.tail qos payload)) := by
  rw [buildPublishPacket, encodeUtf8String_ok htopic]
  simp only [encodeRemainingLength_eq]
  interval_cases qos
  · rfl
  · rw [show Publication.tail 1 payload = bigEndian 0 ++ payload from rfl, ← List.append_assoc]
    rfl

theorem parsePublish_encoded {topic : String} {qos : Nat}
    (htopic : (utf8 topic.toList).length ≤ 65535) (hqos : qos ≤ 1) (payload : List UInt8) :
    parsePublish (2 * qos) (utf8String topic ++ Publication.tail qos payload) =
      .ok ⟨topic, qos, if 0 < qos then some 0 else none, payload⟩ := by
  have hdecode := decodeUtf8String_encoded htopic [] (Publication.tail qos payload)
  rw [List.nil_append, List.length_nil] at hdecode
  rw [parsePublish, hdecode]
  interval_cases qos
  · change Except.ok _ = _
    rw [List.nil_append, List.drop_left]
    rfl
  · have htake : ((utf8String topic ++ Publication.tail 1 payload).drop
        ([] ++ utf8String topic).length).take 2 = bigEndian 0 := by
      rw [List.nil_append, List.drop_left]
      rfl
    have hdrop : (utf8String topic ++ Publication.tail 1 payload).drop
        (([] ++ utf8String topic).length + 2) = payload := by
      rw [List.nil_append, ← List.drop_drop, List.drop_left]
      rfl
    change (do
      let packetId ← unpackH _
      return (⟨topic, 1, some packetId, _⟩ : Publication)) = _
    rw [htake, hdrop]
    rfl

/-- The first byte says PUBLISH, and its flags hold the QoS. -/
theorem ofHeader_publish {qos : Nat} (hqos : qos ≤ 1) (body : List UInt8) :
    Packet.ofHeader (0x30 + 2 * qos).toUInt8 body = ⟨PUBLISH, 2 * qos, body⟩ := by
  interval_cases qos <;> rfl

theorem buildPublishPacket_read {topic : String} {qos : Nat}
    (htopic : (utf8 topic.toList).length ≤ 65535) (hqos : qos ≤ 1) (payload : List UInt8) :
    ∃ bytes, buildPublishPacket topic payload qos = .ok bytes ∧
      ∀ rest, ∃ flags body, readPacket (bytes ++ rest) = some (⟨PUBLISH, flags, body⟩, rest) ∧
        parsePublish flags body =
          .ok ⟨topic, qos, if 0 < qos then some 0 else none, payload⟩ := by
  refine ⟨_, buildPublishPacket_eq htopic hqos payload, fun rest => ⟨2 * qos, _, ?_,
    parsePublish_encoded htopic hqos payload⟩⟩
  rw [readPacket_eq, Base128.unframe_frame, Option.map_some, ofHeader_publish hqos]

theorem utf8_of_fromUtf8 {bytes : List UInt8} {s : String} (h : fromUtf8 bytes = some s) :
    utf8 s.toList = bytes := by
  rw [fromUtf8, String.fromUTF8?] at h
  split at h
  · cases h
    have hbytes : (utf8 (String.fromUTF8 bytes.toByteArray ‹_›).toList).toByteArray =
        bytes.toByteArray := by
      rw [show (utf8 _).toByteArray = _ from String.toByteArray_ofList.symm, String.ofList_toList]
      rfl
    have hdata := congrArg (fun a : ByteArray => a.data.toList) hbytes
    simpa using hdata
  · cases h

/-- A topic that was read has a length of two bytes, so it can be written again. -/
theorem decodeUtf8String_size {data : List UInt8} {offset next : Nat} {s : String}
    (h : decodeUtf8String data offset = .ok (s, next)) : (utf8 s.toList).length ≤ 65535 := by
  rw [decodeUtf8String] at h
  split at h
  · cases h
  · split at h
    · cases h
    · rename_i strLen hlen
      split at h
      · cases h
      · split at h
        · rename_i hutf8
          cases h
          rw [utf8_of_fromUtf8 hutf8, List.length_take]
          unfold unpackH at hlen
          split at hlen
          · rename_i high low _
            cases hlen
            have := high.toNat_lt
            have := low.toNat_lt
            omega
          · cases hlen
        · cases h

/-- The packet `_handle_publish` routes to the other clients. -/
def Publication.relayed (p : Publication) : Except PacketError (List UInt8) :=
  buildPublishPacket p.topic p.payload (min p.qos 1)

theorem parsePublish_size {flags : Nat} {body : List UInt8} {p : Publication}
    (h : parsePublish flags body = .ok p) : (utf8 p.topic.toList).length ≤ 65535 := by
  rw [parsePublish] at h
  cases hdecode : decodeUtf8String body 0 with
  | error e =>
    rw [hdecode] at h
    cases h
  | ok r =>
    rw [hdecode] at h
    change (if 0 < flags >>> 1 &&& 0x03 then do
        let packetId ← unpackH ((body.drop r.2).take 2)
        return (⟨r.1, flags >>> 1 &&& 0x03, some packetId, body.drop (r.2 + 2)⟩ : Publication)
      else return ⟨r.1, flags >>> 1 &&& 0x03, none, body.drop r.2⟩) = _ at h
    have hsize := decodeUtf8String_size hdecode
    split at h
    · cases hid : unpackH ((body.drop r.2).take 2) with
      | error e =>
        rw [hid] at h
        cases h
      | ok packetId =>
        rw [hid] at h
        cases h
        exact hsize
    · cases h
      exact hsize

/-- Whatever PUBLISH the broker accepts it can route, and the other clients read the same topic
and payload. -/
theorem relayed_read {flags : Nat} {body : List UInt8} {p : Publication}
    (h : parsePublish flags body = .ok p) :
    ∃ bytes, p.relayed = .ok bytes ∧
      ∀ rest, ∃ flags' body', readPacket (bytes ++ rest) = some (⟨PUBLISH, flags', body'⟩, rest) ∧
        parsePublish flags' body' =
          .ok ⟨p.topic, min p.qos 1, if 0 < min p.qos 1 then some 0 else none, p.payload⟩ :=
  buildPublishPacket_read (parsePublish_size h) (Nat.min_le_right _ _) p.payload

/-! ## SUBSCRIBE -/

/-- The answer to a SUBSCRIBE; its length is a single byte. -/
def suback (packetId : Nat) (granted : List UInt8) : Except PacketError (List UInt8) := do
  let header ← toBytes [SUBACK <<< 4, 2 + granted.length]
  let id ← packH packetId
  return header ++ id ++ granted

/-- The loop of `_handle_subscribe`: the session's subscriptions and the granted QoS. The
subscriptions of the filters in front of a malformed one stay. -/
def subscribeLoop (body : List UInt8) (offset : Nat) (subscriptions : List String)
    (granted : List UInt8) : List String × Except PacketError (List UInt8) :=
  if offset < body.length then
    match _ : decodeUtf8String body offset with
    | .error e => (subscriptions, .error e)
    | .ok (topicFilter, next) =>
      match body[next]? with
      | none => (subscriptions, .error .index)
      | some requestedQos =>
        subscribeLoop body (next + 1) (subscriptions.insert topicFilter)
          (granted ++ [min requestedQos 1])
  else (subscriptions, .ok granted)
termination_by body.length - offset
decreasing_by
  have := decodeUtf8String_offset ‹_›
  omega

/-- The session's subscriptions afterwards, and what is written. -/
def handleSubscribe (subscriptions : List String) (body : List UInt8) :
    List String × Except PacketError (List UInt8) :=
  match unpackH (body.take 2) with
  | .error e => (subscriptions, .error e)
  | .ok packetId =>
    let r := subscribeLoop body 2 subscriptions []
    (r.1, r.2.bind (suback packetId))

/-- A SUBSCRIBE packet: topic filters that can be written, each with the QoS asked for. -/
structure SubscribePacket where
  packetId : UInt16
  filters : List (String × UInt8)
  size : ∀ f ∈ filters, (utf8 f.1.toList).length ≤ 65535

namespace SubscribePacket

def entry (f : String × UInt8) : List UInt8 := utf8String f.1 ++ [f.2]

def body (p : SubscribePacket) : List UInt8 :=
  bigEndian p.packetId.toNat ++ p.filters.flatMap entry

def bytes (p : SubscribePacket) : List UInt8 := Base128.frame 0x82 p.body

/-- What the broker writes for the packet. -/
def answer (p : SubscribePacket) (subscriptions : List String) :
    Except PacketError (List UInt8) :=
  (handleSubscribe subscriptions p.body).2

end SubscribePacket

theorem subscribeLoop_entries (fs : List (String × UInt8))
    (hsize : ∀ f ∈ fs, (utf8 f.1.toList).length ≤ 65535) (front : List UInt8)
    (subscriptions : List String) (granted : List UInt8) :
    subscribeLoop (front ++ fs.flatMap SubscribePacket.entry) front.length subscriptions granted =
      (fs.foldl (fun l f => l.insert f.1) subscriptions,
        .ok (granted ++ fs.map fun f => min f.2 1)) := by
  induction fs generalizing front subscriptions granted with
  | nil =>
    rw [subscribeLoop, if_neg (by simp)]
    simp
  | cons f fs ih =>
    have hrest := fun f' hf' => hsize f' (List.mem_cons_of_mem f hf')
    have hdecode := decodeUtf8String_encoded (hsize f List.mem_cons_self) front
      ([f.2] ++ fs.flatMap SubscribePacket.entry)
    have hbody : front ++ (f :: fs).flatMap SubscribePacket.entry =
        front ++ (utf8String f.1 ++ ([f.2] ++ fs.flatMap SubscribePacket.entry)) := by
      rw [List.flatMap_cons, SubscribePacket.entry, List.append_assoc]
    have hnext : (front ++ utf8String f.1 ++ [f.2]).length =
        (front ++ utf8String f.1).length + 1 := by
      rw [List.length_append, List.length_singleton]
    have hqos : (front ++ (utf8String f.1 ++ ([f.2] ++ fs.flatMap SubscribePacket.entry)))[
        (front ++ utf8String f.1).length]? = some f.2 := by
      rw [← List.append_assoc, List.getElem?_append_right (Nat.le_refl _), Nat.sub_self]
      rfl
    have hlt : front.length <
        (front ++ (utf8String f.1 ++ ([f.2] ++ fs.flatMap SubscribePacket.entry))).length := by
      simp only [List.length_append, utf8String_length]
      omega
    have ih := ih hrest (front ++ utf8String f.1 ++ [f.2]) (subscriptions.insert f.1)
      (granted ++ [min f.2 1])
    rw [hnext] at ih
    rw [hbody, subscribeLoop, if_pos hlt, hdecode]
    dsimp only
    rw [hqos]
    dsimp only
    rw [show front ++ (utf8String f.1 ++ ([f.2] ++ fs.flatMap SubscribePacket.entry)) =
        front ++ utf8String f.1 ++ [f.2] ++ fs.flatMap SubscribePacket.entry by
      simp only [List.append_assoc], ih, List.foldl_cons, List.map_cons, List.append_assoc,
      List.singleton_append]

/-- The loop subscribes to the filters as the session table records it, and grants each what it
asked for, at most 1. -/
theorem handleSubscribe_body (p : SubscribePacket) (subscriptions : List String) :
    handleSubscribe subscriptions p.body =
      (p.filters.foldl (fun l f => l.insert f.1) subscriptions,
        suback p.packetId.toNat (p.filters.map fun f => min f.2 1)) := by
  have hid : p.packetId.toNat ≤ 65535 := Nat.le_of_lt_succ p.packetId.toNat_lt
  have htake : p.body.take 2 = bigEndian p.packetId.toNat := List.take_left' (bigEndian_length _)
  have hloop := subscribeLoop_entries p.filters p.size (bigEndian p.packetId.toNat) subscriptions []
  rw [bigEndian_length, List.nil_append] at hloop
  rw [handleSubscribe, htake, unpackH_bigEndian hid]
  dsimp only
  rw [SubscribePacket.body, hloop]
  rfl

/-! ## The SUBACK -/

/-- The return codes of MQTT 3.1.1. -/
def returnCodes : List UInt8 := [0, 1, 2, 0x80]

/-- One well-formed packet and nothing else: a SUBACK with the id of the SUBSCRIBE and a return
code for each filter. -/
def SubscribePacket.AnsweredBy (p : SubscribePacket) (written : List UInt8) : Prop :=
  ∃ codes, Base128.unframe written = some ((0x90, bigEndian p.packetId.toNat ++ codes), []) ∧
    codes.length = p.filters.length ∧ ∀ code ∈ codes, code ∈ returnCodes

theorem granted_cases (qos : UInt8) : min qos 1 = 0 ∨ min qos 1 = 1 := by
  rw [show min qos 1 = if qos ≤ 1 then qos else 1 from rfl]
  split
  · rename_i h
    have : qos.toNat ≤ 1 := h
    rcases Nat.le_one_iff_eq_zero_or_eq_one.1 this with h | h
    · exact .inl (UInt8.toNat_inj.1 h)
    · exact .inr (UInt8.toNat_inj.1 h)
  · exact .inr rfl

theorem granted_mem_returnCodes (qos : UInt8) : min qos 1 ∈ returnCodes := by
  rcases granted_cases qos with h | h <;> rw [h] <;> decide

theorem granted_lt (qos : UInt8) : (min qos 1).toNat < 128 := by
  rcases granted_cases qos with h | h <;> rw [h] <;> decide

theorem suback_eq {packetId : Nat} {granted : List UInt8} (hid : packetId ≤ 65535)
    (hsize : granted.length ≤ 253) :
    suback packetId granted =
      .ok (0x90 :: (2 + granted.length).toUInt8 :: (bigEndian packetId ++ granted)) := by
  have hbytes : ∀ n ∈ [SUBACK <<< 4, 2 + granted.length], n < 256 := by
    intro n hn
    rcases List.mem_pair.1 hn with rfl | rfl
    · decide
    · omega
  rw [suback, toBytes_ok hbytes, packH_ok hid]
  rfl

/-- `bytes` does not take the length. -/
theorem suback_error {packetId : Nat} {granted : List UInt8} (hsize : 254 ≤ granted.length) :
    suback packetId granted = .error .byteRange := by
  have hbytes : ¬ ∀ n ∈ [SUBACK <<< 4, 2 + granted.length], n < 256 := by
    intro h
    have := h (2 + granted.length) (by simp)
    omega
  rw [suback, toBytes, if_neg hbytes]
  rfl

/-- Below 126 filters the single byte is the length in base 128. -/
theorem suback_frame {packetId : Nat} {granted : List UInt8} (hid : packetId ≤ 65535)
    (hsize : granted.length ≤ 125) :
    suback packetId granted = .ok (Base128.frame 0x90 (bigEndian packetId ++ granted)) := by
  have hlen : (bigEndian packetId ++ granted).length = 2 + granted.length := by
    rw [List.length_append, bigEndian_length]
  rw [suback_eq hid (by omega), Base128.frame, hlen, Base128.encode, if_pos (by omega)]
  rfl

theorem answered_iff (p : SubscribePacket) (subscriptions : List String) :
    (∃ written, p.answer subscriptions = .ok written ∧ p.AnsweredBy written) ↔
      p.filters.length ≤ 125 := by
  have hid : p.packetId.toNat ≤ 65535 := Nat.le_of_lt_succ p.packetId.toNat_lt
  have hlen : (p.filters.map fun f => min f.2 1).length = p.filters.length := List.length_map _
  have hanswer : p.answer subscriptions =
      suback p.packetId.toNat (p.filters.map fun f => min f.2 1) := by
    rw [SubscribePacket.answer, handleSubscribe_body]
  rw [hanswer]
  constructor
  · rintro ⟨written, hwritten, codes, hframe, -⟩
    by_contra hmany
    by_cases hsize : p.filters.length ≤ 253
    · obtain ⟨f, fs, hf⟩ := List.exists_cons_of_ne_nil
        (List.ne_nil_of_length_pos (show 0 < p.filters.length by omega))
      rw [suback_eq hid (by omega), hlen, hf] at hwritten
      cases hwritten
      have hlength : fs.length + 1 = p.filters.length := by rw [hf, List.length_cons]
      have hbyte := Base128.toNat_toUInt8 (show 2 + (f :: fs).length < 256 by
        rw [List.length_cons]
        omega)
      exact Base128.unframe_ne_whole (by rw [hbyte, List.length_cons]; omega) (granted_lt f.2)
        (by rw [bigEndian_length]; omega)
        (by rw [hbyte, bigEndian_length, List.length_map, List.length_cons]; omega) _ hframe
    · rw [suback_error (by omega)] at hwritten
      cases hwritten
  · intro hfew
    refine ⟨_, suback_frame hid (by omega), p.filters.map fun f => min f.2 1, ?_, hlen, ?_⟩
    · have := Base128.unframe_frame 0x90
        (bigEndian p.packetId.toNat ++ p.filters.map fun f => min f.2 1) []
      rwa [List.append_nil] at this
    · intro code hcode
      obtain ⟨f, -, rfl⟩ := List.mem_map.1 hcode
      exact granted_mem_returnCodes f.2

theorem SubscribePacket.read (p : SubscribePacket) (rest : List UInt8) :
    readPacket (p.bytes ++ rest) = some (⟨SUBSCRIBE, 2, p.body⟩, rest) := by
  have hheader : Packet.ofHeader 0x82 p.body = ⟨SUBSCRIBE, 2, p.body⟩ := rfl
  rw [readPacket_eq, SubscribePacket.bytes, Base128.unframe_frame, Option.map_some, hheader]

/-- Lengths and PUBLISH packets are read back as they were written, whatever stands around them;
a SUBSCRIBE is answered by one well-formed SUBACK exactly if it has at most 125 filters. -/
theorem packets_framed_iff (p : SubscribePacket) :
    ((∀ (length : Nat) (front back : List UInt8),
        decodeRemainingLength (front ++ encodeRemainingLength length ++ back) front.length =
          .ok (length, (encodeRemainingLength length).length)) ∧
      (∀ (topic : String) (payload : List UInt8) (qos : Nat),
        (utf8 topic.toList).length ≤ 65535 → qos ≤ 1 →
        ∃ bytes, buildPublishPacket topic payload qos = .ok bytes ∧
          ∀ rest, ∃ flags body published,
            readPacket (bytes ++ rest) = some (⟨PUBLISH, flags, body⟩, rest) ∧
            parsePublish flags body = .ok published ∧ published.topic = topic ∧
            published.qos = qos ∧ published.payload = payload) ∧
      ∀ rest subscriptions, ∃ flags body written,
        readPacket (p.bytes ++ rest) = some (⟨SUBSCRIBE, flags, body⟩, rest) ∧
        (handleSubscribe subscriptions body).2 = .ok written ∧ p.AnsweredBy written) ↔
      p.filters.length ≤ 125 := by
  constructor
  · rintro ⟨-, -, hanswered⟩
    obtain ⟨flags, body, written, hread, hwritten, hanswer⟩ := hanswered [] []
    rw [p.read] at hread
    cases hread
    exact (answered_iff p []).1 ⟨written, hwritten, hanswer⟩
  · intro hfew
    refine ⟨fun length front back => decodeRemainingLength_encode front back length, ?_, ?_⟩
    · intro topic payload qos htopic hqos
      obtain ⟨bytes, hbytes, hread⟩ := buildPublishPacket_read htopic hqos payload
      refine ⟨bytes, hbytes, fun rest => ?_⟩
      obtain ⟨flags, body, hpacket, hparse⟩ := hread rest
      exact ⟨flags, body, _, hpacket, hparse, rfl, rfl, rfl⟩
    · intro rest subscriptions
      obtain ⟨written, hwritten, hanswer⟩ := (answered_iff p subscriptions).2 hfew
      exact ⟨2, p.body, written, p.read rest, hwritten, hanswer⟩

/-- A SUBSCRIBE for 126 topic filters. -/
def manyFilters : SubscribePacket where
  packetId := 1
  filters := List.replicate 126 ("a", 0)
  size f hf := by
    rw [List.eq_of_mem_replicate hf]
    decide

/-- The length byte 128 and the id are read as an empty packet, and the rest of the SUBACK as
packets of its own. -/
theorem suback_misframed :
    manyFilters.answer [] = .ok (0x90 :: 128 :: 0 :: 1 :: List.replicate 126 0) ∧
      Base128.unframe (0x90 :: 128 :: 0 :: 1 :: List.replicate 126 0) =
        some ((0x90, []), 1 :: List.replicate 126 0) ∧
      ¬ ∃ written, manyFilters.answer [] = .ok written ∧ manyFilters.AnsweredBy written := by
  have hlength : manyFilters.filters.length = 126 := List.length_replicate
  refine ⟨?_, ?_, ?_⟩
  · rw [SubscribePacket.answer, handleSubscribe_body, suback_eq (by decide)
      (by rw [List.length_map, hlength]; decide), List.length_map, hlength]
    rfl
  · rw [Base128.unframe, Base128.decode_more (by decide), Base128.decode_last (by decide)]
    simp
  · rw [answered_iff, hlength]
    decide

end TreeMiner.Server
