import Nachos.MemoryAccess

/-!
# Packets: `machine/network.cc`, and the framing of `network/post.cc`

A message is framed twice: the post office puts its header in front of the
data, and the network puts another one in front of that.  What goes over the
wire has always the same size; behind the data there is whatever the buffer
contained.
-/

namespace Nachos

/-! ## Memory of the host -/

/-- `char buffer[n]`. -/
abbrev Buffer (n : ℕ) :=
  { bytes : List (BitVec 8) // bytes.length = n }

/-- `bcopy(source, target + start, count)`. -/
def bcopy {n : ℕ} (source : List (BitVec 8)) (target : Buffer n)
    (start count : ℕ) : Except Fault (Buffer n) :=
  if h : count ≤ source.length ∧ start + count ≤ n then
    .ok ⟨target.val.take start ++ source.take count ++
      target.val.drop (start + count), by
        simp [target.property]
        omega⟩
  else .error .undefinedBehaviour

open Machine (valueByte)

/-- An `int` or an `unsigned` as it is in memory. -/
def wordBytes (w : BitVec 32) : List (BitVec 8) :=
  [valueByte w 0, valueByte w 1, valueByte w 2, valueByte w 3]

def bytesWord (bytes : List (BitVec 8)) : BitVec 32 :=
  bytes.getD 3 0 ++ bytes.getD 2 0 ++ bytes.getD 1 0 ++ bytes.getD 0 0

theorem bytesWord_append (w : BitVec 32) (rest : List (BitVec 8)) :
    bytesWord (wordBytes w ++ rest) = w := by
  apply BitVec.eq_of_getLsbD_eq
  intro i hi
  simp only [bytesWord, wordBytes, List.cons_append, List.getD_cons_zero,
    List.getD_cons_succ, BitVec.getLsbD_append, valueByte,
    BitVec.getLsbD_setWidth, BitVec.getLsbD_ushiftRight]
  grind

/-- A copy that fits replaces what was there. -/
theorem bcopy_ok
    {n start count : ℕ} {source : List (BitVec 8)} (target : Buffer n)
    (hsource : count ≤ source.length) (htarget : start + count ≤ n) :
    ∃ copied : Buffer n, bcopy source target start count = .ok copied ∧
      copied.val = target.val.take start ++ source.take count ++
        target.val.drop (start + count) :=
  ⟨_, dif_pos ⟨hsource, htarget⟩, rfl⟩

/-- What is in front in the source is in front in the target. -/
theorem bcopy_front
    {n count : ℕ} {text source : List (BitVec 8)} (target : Buffer n)
    (htext : text <+: source) (hlength : text.length = count)
    (hcount : count ≤ n) :
    ∃ copied : Buffer n, bcopy source target 0 count = .ok copied ∧
      text <+: copied.val := by
  obtain ⟨rest, rfl⟩ := htext
  have hsource : count ≤ (text ++ rest).length := by
    rw [List.length_append, hlength]
    exact Nat.le_add_right count rest.length
  have htarget : 0 + count ≤ n := by omega
  obtain ⟨copied, hcopied, hbytes⟩ := bcopy_ok target hsource htarget
  refine ⟨copied, hcopied, target.val.drop (0 + count), ?_⟩
  rw [hbytes, List.take_zero, List.nil_append, List.take_left' hlength]

/-! ## Headers -/

/-- `class PacketHeader` and `class MailHeader`: both have these members. -/
structure Header where
  toAddress : BitVec 32
  fromAddress : BitVec 32
  length : BitVec 32
  deriving DecidableEq

abbrev PacketHeader := Header
abbrev MailHeader := Header

/-- `sizeof(PacketHeader)` and `sizeof(MailHeader)`. -/
def headerSize : ℕ := 12

/-- `MaxWireSize`. -/
def maxWireSize : ℕ := 64

/-- `MaxPacketSize`. -/
def maxPacketSize : ℕ := maxWireSize - headerSize

/-- `MaxMailSize`. -/
def maxMailSize : ℕ := maxPacketSize - headerSize

namespace Header

/-- A header as it is in memory. -/
def bytes (h : Header) : List (BitVec 8) :=
  wordBytes h.toAddress ++ wordBytes h.fromAddress ++ wordBytes h.length

/-- `*(PacketHeader *)buffer` and `*(MailHeader *)buffer`. -/
def ofBytes (buffer : List (BitVec 8)) : Header where
  toAddress := bytesWord buffer
  fromAddress := bytesWord (buffer.drop 4)
  length := bytesWord (buffer.drop 8)

theorem length_bytes (h : Header) : h.bytes.length = headerSize := rfl

theorem ofBytes_append (h : Header) (rest : List (BitVec 8)) :
    ofBytes (h.bytes ++ rest) = h := by
  have hto : bytesWord (h.bytes ++ rest) = h.toAddress := by
    rw [bytes, List.append_assoc, List.append_assoc]
    exact bytesWord_append _ _
  have hfrom : bytesWord ((h.bytes ++ rest).drop 4) = h.fromAddress :=
    bytesWord_append h.fromAddress (wordBytes h.length ++ rest)
  have hlength : bytesWord ((h.bytes ++ rest).drop 8) = h.length :=
    bytesWord_append h.length rest
  simp only [ofBytes, hto, hfrom, hlength]

end Header

/-- Concatenate a header and the first bytes of the data in a buffer. -/
def concatenate {n : ℕ} (hdr : Header) (data : List (BitVec 8)) (length : ℕ)
    (buffer : Buffer n) : Except Fault (Buffer n) := do
  let buffer ← bcopy hdr.bytes buffer 0 headerSize
  bcopy data buffer headerSize length

theorem concatenate_ok
    {n length : ℕ} (hdr : Header) {data : List (BitVec 8)} (buffer : Buffer n)
    (hdata : length ≤ data.length) (hfits : headerSize + length ≤ n) :
    ∃ whole rest, concatenate hdr data length buffer = .ok whole ∧
      whole.val = hdr.bytes ++ data.take length ++ rest := by
  obtain ⟨front, hfront, hheader⟩ := bcopy_ok buffer
    (Header.length_bytes hdr).ge (show 0 + headerSize ≤ n by omega)
  obtain ⟨whole, hwhole, hcopied⟩ := bcopy_ok front hdata hfits
  have hshort : hdr.bytes.take headerSize = hdr.bytes := rfl
  refine ⟨whole, front.val.drop (headerSize + length), ?_, ?_⟩
  · rw [concatenate, hfront, ok_bind, hwhole]
  · rw [hcopied, hheader, List.take_zero, List.nil_append, hshort,
      List.take_left' (Header.length_bytes hdr)]

/-! ## The way out -/

/-- `class NetworkOutput`, with the packets that have been given to the socket
and whom they are for. -/
structure NetworkOutput where
  sendBusy : Bool
  wire : List (BitVec 32 × Buffer maxWireSize)

/-- A packet as the post office hands it to the network, with what comes from
outside: whether the packet gets lost, and the memory that it is put into. -/
structure Packet where
  hdr : PacketHeader
  data : Buffer maxPacketSize
  lost : Bool
  buffer : Buffer maxWireSize

/-- The arguments of `PostOfficeOutput::Send`, with what comes from outside. -/
structure Letter where
  pktHdr : PacketHeader
  mailHdr : MailHeader
  data : List (BitVec 8)
  buffer : Buffer maxPacketSize
  lost : Bool
  wireBuffer : Buffer maxWireSize

/-- `PostOfficeOutput::Send`, up to `Acquire`. -/
def Letter.frame (letter : Letter) (hostName : BitVec 32) :
    Except Fault Packet := do
  assert (letter.mailHdr.length.toNat ≤ maxMailSize)
  assert (0 ≤ letter.mailHdr.toAddress.toInt)
  let pktHdr := { letter.pktHdr with
    fromAddress := hostName
    length := letter.mailHdr.length + BitVec.ofNat 32 headerSize }
  let buffer ← concatenate letter.mailHdr letter.data
    letter.mailHdr.length.toNat letter.buffer
  return ⟨pktHdr, buffer, letter.lost, letter.wireBuffer⟩

/-- The concatenation in `NetworkOutput::Send`. -/
def Packet.frame (packet : Packet) : Except Fault (Buffer maxWireSize) :=
  concatenate packet.hdr packet.data.val packet.hdr.length.toNat packet.buffer

/-- What the caller of `PostOfficeOutput::Send` has to see to: the message is
not too long, it has all its bytes, and the mail box can exist. -/
structure Letter.Valid (letter : Letter) : Prop where
  length : letter.mailHdr.length.toNat ≤ maxMailSize
  box : 0 ≤ letter.mailHdr.toAddress.toInt
  data : letter.mailHdr.length.toNat ≤ letter.data.length

/-- The message of a letter, without what is behind it in memory. -/
def Letter.message (letter : Letter) : List (BitVec 8) :=
  letter.data.take letter.mailHdr.length.toNat

/-- The header that `PostOfficeOutput::Send` fills in. -/
def Letter.framedHdr (letter : Letter) (hostName : BitVec 32) : PacketHeader :=
  { letter.pktHdr with
    fromAddress := hostName
    length := letter.mailHdr.length + BitVec.ofNat 32 headerSize }

/-- What the network is given for a letter. -/
structure Letter.Framed (letter : Letter) (hostName : BitVec 32)
    (packet : Packet) : Prop where
  valid : letter.Valid
  hdr : packet.hdr = letter.framedHdr hostName
  data : ∃ rest, packet.data.val =
    letter.mailHdr.bytes ++ letter.message ++ rest
  lost : packet.lost = letter.lost

/-- The sum of the lengths does not overflow. -/
theorem Letter.Valid.framedLength
    {letter : Letter} (h : letter.Valid) (hostName : BitVec 32) :
    (letter.framedHdr hostName).length.toNat =
      headerSize + letter.mailHdr.length.toNat := by
  have hlength := h.length
  simp only [framedHdr, maxMailSize, maxPacketSize, maxWireSize,
    headerSize] at hlength ⊢
  rw [BitVec.toNat_add, BitVec.toNat_ofNat]
  omega

theorem Letter.frame_valid
    {letter : Letter} (h : letter.Valid) (hostName : BitVec 32) :
    ∃ packet, letter.frame hostName = .ok packet ∧
      letter.Framed hostName packet := by
  have hlength : headerSize + letter.mailHdr.length.toNat ≤ maxPacketSize := by
    have hle := h.length
    simp only [maxMailSize, maxPacketSize, maxWireSize, headerSize] at hle ⊢
    omega
  obtain ⟨whole, rest, hwhole, hdata⟩ :=
    concatenate_ok letter.mailHdr letter.buffer h.data hlength
  refine ⟨⟨letter.framedHdr hostName, whole, letter.lost, letter.wireBuffer⟩,
    ?_, ⟨h, rfl, ⟨rest, hdata⟩, rfl⟩⟩
  simp only [frame, assert_of_true h.length, assert_of_true h.box, ok_bind,
    hwhole]
  rfl

/-- `PostOfficeOutput::Send` does not go on with any other letter. -/
theorem Letter.valid_of_frame
    {letter : Letter} {hostName : BitVec 32} {packet : Packet}
    (h : letter.frame hostName = .ok packet) : letter.Valid := by
  unfold frame at h
  obtain ⟨⟨⟩, hlength, h⟩ := ok_of_bind h
  obtain ⟨⟨⟩, hbox, h⟩ := ok_of_bind h
  obtain ⟨whole, hwhole, -⟩ := ok_of_bind h
  obtain ⟨front, -, hdata⟩ := ok_of_bind hwhole
  simp only [assert, bcopy] at hlength hbox hdata
  constructor <;> grind

theorem Letter.framed_of_frame
    {letter : Letter} {hostName : BitVec 32} {packet : Packet}
    (h : letter.frame hostName = .ok packet) :
    letter.Framed hostName packet := by
  obtain ⟨packet', hframe, hframed⟩ :=
    frame_valid (valid_of_frame h) hostName
  rw [h] at hframe
  cases hframe
  exact hframed

theorem Letter.Framed.length
    {letter : Letter} {hostName : BitVec 32} {packet : Packet}
    (h : letter.Framed hostName packet) :
    packet.hdr.length.toNat = headerSize + letter.mailHdr.length.toNat := by
  rw [h.hdr]
  exact h.valid.framedLength hostName

/-- What goes over the wire for a packet that the post office has framed. -/
theorem Letter.Framed.wire
    {letter : Letter} {hostName : BitVec 32} {packet : Packet}
    (h : letter.Framed hostName packet) :
    ∃ wire rest, packet.frame = .ok wire ∧ wire.val =
      packet.hdr.bytes ++ (letter.mailHdr.bytes ++ letter.message) ++ rest := by
  have hvalid := h.valid.length
  simp only [maxMailSize, maxPacketSize, maxWireSize, headerSize] at hvalid
  have hfits : packet.hdr.length.toNat ≤ packet.data.val.length := by
    rw [h.length, packet.data.property]
    simp only [maxPacketSize, maxWireSize, headerSize]
    omega
  obtain ⟨wire, rest, hwire, hbytes⟩ := concatenate_ok packet.hdr packet.buffer
    hfits (by
      rw [h.length]
      simp only [maxWireSize, headerSize]
      omega)
  have hmessage : letter.message.length = letter.mailHdr.length.toNat :=
    List.length_take_of_le h.valid.data
  have htake : packet.data.val.take packet.hdr.length.toNat =
      letter.mailHdr.bytes ++ letter.message := by
    obtain ⟨behind, hbehind⟩ := h.data
    rw [hbehind]
    refine List.take_left' ?_
    rw [List.length_append, hmessage, h.length]
    rfl
  rw [htake] at hbytes
  exact ⟨wire, rest, hwire, hbytes⟩

namespace NetworkOutput

/-- `NetworkOutput::NetworkOutput`. -/
def new : NetworkOutput :=
  ⟨false, []⟩

/-- `NetworkOutput::Send`. -/
def send (network : NetworkOutput) (hostName : BitVec 32) (packet : Packet) :
    Except Fault NetworkOutput := do
  assert (network.sendBusy = false ∧ 0 < packet.hdr.length.toNat ∧
    packet.hdr.length.toNat ≤ maxPacketSize ∧
    packet.hdr.fromAddress = hostName)
  if packet.lost then return network
  else do
    let buffer ← packet.frame
    return { network with wire := network.wire ++ [(packet.hdr.toAddress, buffer)] }

/-- `NetworkOutput::CallBack`, up to the call of the post office. -/
def callBack (network : NetworkOutput) : NetworkOutput :=
  { network with sendBusy := false }

/-- The network takes every packet that the post office has framed, unless it
is busy. -/
theorem send_framed
    {network : NetworkOutput} {hostName : BitVec 32} {letter : Letter}
    {packet : Packet} (hidle : network.sendBusy = false)
    (hframed : letter.Framed hostName packet) :
    ∃ network', network.send hostName packet = .ok network' := by
  have hvalid := hframed.valid.length
  simp only [maxMailSize, maxPacketSize, maxWireSize, headerSize] at hvalid
  have hpasses : network.sendBusy = false ∧ 0 < packet.hdr.length.toNat ∧
      packet.hdr.length.toNat ≤ maxPacketSize ∧
      packet.hdr.fromAddress = hostName := by
    refine ⟨hidle, ?_, ?_, ?_⟩
    · rw [hframed.length]
      exact Nat.lt_add_right _ (by decide)
    · rw [hframed.length]
      simp only [maxPacketSize, maxWireSize, headerSize]
      omega
    · rw [hframed.hdr]
      rfl
  obtain ⟨wire, rest, hwire, -⟩ := hframed.wire
  unfold send
  rw [assert_of_true hpasses, ok_bind]
  cases packet.lost with
  | false =>
      rw [hwire]
      exact ⟨_, rfl⟩
  | true => exact ⟨network, rfl⟩

end NetworkOutput

/-! ## The way in -/

/-- `class NetworkInput`. -/
structure NetworkInput where
  inHdr : PacketHeader
  inbox : Buffer maxPacketSize
  deriving DecidableEq

namespace NetworkInput

/-- `NetworkInput::NetworkInput`; the rest of its memory is not set. -/
def new (garbage : NetworkInput) : NetworkInput :=
  { garbage with inHdr := { garbage.inHdr with length := 0 } }

/-- `NetworkInput::CallBack`, with the packets that can be read from the
socket; it tells whether the post office has to be called. -/
def callBack (network : NetworkInput) (hostName : BitVec 32)
    (socket : List (Buffer maxWireSize)) :
    Except Fault (NetworkInput × List (Buffer maxWireSize) × Bool) :=
  if network.inHdr.length ≠ 0 then return (network, socket, false)
  else
    match socket with
    | [] => return (network, socket, false)
    | buffer :: socket => do
        let inHdr := Header.ofBytes buffer.val
        assert (inHdr.toAddress = hostName ∧
          inHdr.length.toNat ≤ maxPacketSize)
        let inbox ← bcopy (buffer.val.drop headerSize) network.inbox 0
          inHdr.length.toNat
        return (⟨inHdr, inbox⟩, socket, true)

/-- `NetworkInput::Receive`. -/
def receive (network : NetworkInput) (data : Buffer maxPacketSize) :
    Except Fault (PacketHeader × Buffer maxPacketSize × NetworkInput) := do
  let hdr := network.inHdr
  let network := { network with inHdr := { hdr with length := 0 } }
  if hdr.length ≠ 0 then do
    let data ← bcopy network.inbox.val data 0 hdr.length.toNat
    return (hdr, data, network)
  else return (hdr, data, network)

theorem callBack_false
    {network network' : NetworkInput} {hostName : BitVec 32}
    {socket socket' : List (Buffer maxWireSize)}
    (h : network.callBack hostName socket = .ok (network', socket', false)) :
    network' = network ∧ socket' = socket := by
  unfold callBack at h
  split at h
  · cases h
    exact ⟨rfl, rfl⟩
  · split at h
    · cases h
      exact ⟨rfl, rfl⟩
    · obtain ⟨⟨⟩, -, h⟩ := ok_of_bind h
      obtain ⟨inbox, -, h⟩ := ok_of_bind h
      cases h

theorem callBack_true
    {network network' : NetworkInput} {hostName : BitVec 32}
    {socket socket' : List (Buffer maxWireSize)}
    (h : network.callBack hostName socket = .ok (network', socket', true)) :
    network.inHdr.length = 0 ∧ ∃ packet, socket = packet :: socket' := by
  unfold callBack at h
  split at h
  · cases h
  next hempty =>
    split at h
    · cases h
    · obtain ⟨⟨⟩, -, h⟩ := ok_of_bind h
      obtain ⟨inbox, -, h⟩ := ok_of_bind h
      cases h
      exact ⟨not_not.mp hempty, _, rfl⟩

/-- A packet is divided into its header and its data. -/
theorem callBack_packet
    {network : NetworkInput} {hdr : PacketHeader} {text : List (BitVec 8)}
    {packet : Buffer maxWireSize} {hostName : BitVec 32}
    (rest : List (Buffer maxWireSize)) (hempty : network.inHdr.length = 0)
    (hto : hdr.toAddress = hostName)
    (hpacket : hdr.bytes ++ text <+: packet.val) (hlength : text.length = hdr.length.toNat)
    (hfits : hdr.length.toNat ≤ maxPacketSize) :
    ∃ inbox, network.callBack hostName (packet :: rest) =
      .ok (⟨hdr, inbox⟩, rest, true) ∧ text <+: inbox.val := by
  obtain ⟨behind, hbehind⟩ := hpacket
  have hhdr : Header.ofBytes packet.val = hdr := by
    rw [← hbehind, List.append_assoc]
    exact Header.ofBytes_append hdr (text ++ behind)
  have hdata : packet.val.drop headerSize = text ++ behind := by
    rw [← hbehind, List.append_assoc]
    exact List.drop_left' (Header.length_bytes hdr)
  obtain ⟨inbox, hinbox, htext⟩ := bcopy_front network.inbox
    (List.prefix_append text behind) hlength hfits
  refine ⟨inbox, ?_, htext⟩
  have hpasses : hdr.toAddress = hostName ∧
      hdr.length.toNat ≤ maxPacketSize := ⟨hto, hfits⟩
  simp only [callBack, hempty, ne_eq, not_true, if_false, hhdr, hdata,
    assert_of_true hpasses, ok_bind, hinbox]
  rfl

theorem receive_packet
    {network : NetworkInput} {text : List (BitVec 8)}
    (data : Buffer maxPacketSize) (hfull : network.inHdr.length ≠ 0)
    (htext : text <+: network.inbox.val)
    (hlength : text.length = network.inHdr.length.toNat)
    (hfits : network.inHdr.length.toNat ≤ maxPacketSize) :
    ∃ data', network.receive data = .ok (network.inHdr, data',
      { network with inHdr := { network.inHdr with length := 0 } }) ∧
        text <+: data'.val := by
  obtain ⟨data', hdata, htext'⟩ := bcopy_front data htext hlength hfits
  refine ⟨data', ?_, htext'⟩
  simp only [receive, if_pos hfull, hdata, ok_bind]
  rfl

end NetworkInput

end Nachos
