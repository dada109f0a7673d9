import DarknetSpace.Format.KeyValue
import DarknetSpace.P2p.Peerlist

/-!
# Messages (`p2p_protocol_defs.h`, `currency_protocol_defs.h`)

The structures that nodes send to each other, with the names of their members. What
a structure with a `KV` map is on the wire is in `Format/KeyValue`; here are the maps, and
which structure belongs to which command.

A structure is packed where the source sends it as a blob of bytes (`PackedPeer`,
`ConnectionEntry`), and then its fields are at fixed places. All the others have a map,
whose fields come in the order of the source with their names and kinds; that a map is
sound, names different and no longer than a name may be, is checked when it is defined.

`handleInvokeMap` says which structure a command loads, and `Answer` which structure
belongs to an answer. Main result: `heard_as_said`, what one node stores for a command,
or answers to one, the other node loads.
-/

namespace DarknetSpace.PortableStorage

/-- A name as `char`s. -/
def nameOf (s : String) : Blob := s.toList.map fun c => UInt8.ofNat c.toNat

namespace Kind

/-- A member of type `uint64_t`. -/
def uint64 : Kind UInt64 := (pod .uint64).iso UInt64.ofBitVec UInt64.toBitVec fun _ => rfl

/-- A member of type `uint32_t`. -/
def uint32 : Kind UInt32 := (pod .uint32).iso UInt32.ofBitVec UInt32.toBitVec fun _ => rfl

/-- A member of type `uint8_t` or `bool`. -/
def uint8 : Kind UInt8 := (pod .uint8).iso UInt8.ofBitVec UInt8.toBitVec fun _ => rfl

/-- A member of type `int64_t` or `time_t`. -/
def int64 : Kind Int64 := (pod .int64).iso Int64.ofBitVec Int64.toBitVec fun _ => rfl

/-! PODs that are sent as their bytes. -/

/-- The bytes of a word, low ones first. -/
def bitsToBytes (size : Nat) (v : BitVec (8 * size)) : Blob := bytesOfPod size v.toNat

/-- The word of the bytes. -/
def bitsOfBytes (size : Nat) (s : Blob) : BitVec (8 * size) := BitVec.ofNat _ (podOfBytes s)

/-- A word is the word of its bytes. -/
theorem bitsOfBytes_bitsToBytes (size : Nat) (v : BitVec (8 * size)) :
    bitsOfBytes size (bitsToBytes size v) = v := by
  have hv : v.toNat < 256 ^ size := by
    have := v.isLt
    rw [Nat.pow_mul] at this
    exact this
  unfold bitsOfBytes bitsToBytes
  rw [podOfBytes_bytesOfPod hv, BitVec.ofNat_toNat, BitVec.setWidth_eq]

/-- A POD member, sent as a string of its bytes. -/
def bits (size : Nat) : Kind (BitVec (8 * size)) :=
  podAsBlob size (bitsToBytes size) (bitsOfBytes size) (fun v => bytesOfPod_length size v.toNat)
    (bitsOfBytes_bitsToBytes size)

/-- A hash, sent as its 32 bytes. -/
def hash : Kind Hash := bits 32

/-- A signature, sent as its 64 bytes. -/
def signature : Kind Signature := bits 64

/-- A list of hashes, sent as one string. -/
def hashes : Kind (List Hash) :=
  containerPodAsBlob 32 (by decide) (bitsToBytes 32) (bitsOfBytes 32)
    (fun v => bytesOfPod_length 32 v.toNat) (bitsOfBytes_bitsToBytes 32)

end Kind

end DarknetSpace.PortableStorage

namespace DarknetSpace

open PortableStorage

/-! ## `p2p_protocol_defs.h` -/

namespace Nodetool

/-- `peerlist_entry` as it is packed. -/
structure PackedPeer where
  adr : NetAddress
  id : UInt64
  lastSeen : Int64
  deriving DecidableEq

namespace PackedPeer

/-- The bytes of the packed structure. -/
def toBytes (p : PackedPeer) : Blob :=
  bytesOfPod 4 p.adr.ip.toNat ++ (bytesOfPod 4 p.adr.port.toNat ++
    (bytesOfPod 8 p.id.toNat ++ bytesOfPod 8 p.lastSeen.toBitVec.toNat))

/-- The packed structure of the bytes. -/
def ofBytes (s : Blob) : PackedPeer where
  adr := ⟨UInt32.ofNat (podOfBytes (s.take 4)), UInt32.ofNat (podOfBytes ((s.drop 4).take 4))⟩
  id := UInt64.ofNat (podOfBytes ((s.drop 8).take 8))
  lastSeen := Int64.ofBitVec (BitVec.ofNat 64 (podOfBytes ((s.drop 16).take 8)))

theorem toBytes_length (p : PackedPeer) : p.toBytes.length = 24 := by
  unfold toBytes
  simp only [List.length_append, bytesOfPod_length]

/-- A packed structure is read back from its bytes. -/
theorem ofBytes_toBytes (p : PackedPeer) : ofBytes p.toBytes = p := by
  obtain ⟨⟨ip, port⟩, id, lastSeen⟩ := p
  have hip : (bytesOfPod 4 ip.toNat).length = 4 := bytesOfPod_length ..
  have hport : (bytesOfPod 4 port.toNat).length = 4 := bytesOfPod_length ..
  have hid : (bytesOfPod 8 id.toNat).length = 8 := bytesOfPod_length ..
  have hseen : (bytesOfPod 8 lastSeen.toBitVec.toNat).length = 8 := bytesOfPod_length ..
  have hdrop4 : (toBytes ⟨⟨ip, port⟩, id, lastSeen⟩).drop 4 = bytesOfPod 4 port.toNat ++
      (bytesOfPod 8 id.toNat ++ bytesOfPod 8 lastSeen.toBitVec.toNat) := List.drop_left' hip
  have hdrop8 : (toBytes ⟨⟨ip, port⟩, id, lastSeen⟩).drop 8 =
      bytesOfPod 8 id.toNat ++ bytesOfPod 8 lastSeen.toBitVec.toNat := by
    rw [show 8 = 4 + 4 from rfl, ← List.drop_drop, hdrop4, List.drop_left' hport]
  have hdrop16 : (toBytes ⟨⟨ip, port⟩, id, lastSeen⟩).drop 16 =
      bytesOfPod 8 lastSeen.toBitVec.toNat := by
    rw [show 16 = 8 + 8 from rfl, ← List.drop_drop, hdrop8, List.drop_left' hid]
  have htake : (toBytes ⟨⟨ip, port⟩, id, lastSeen⟩).take 4 = bytesOfPod 4 ip.toNat :=
    List.take_left' hip
  unfold ofBytes
  rw [htake, hdrop4, hdrop8, hdrop16, List.take_left' hport, List.take_left' hid,
    List.take_of_length_le (Nat.le_of_eq hseen), podOfBytes_bytesOfPod ip.toNat_lt,
    podOfBytes_bytesOfPod port.toNat_lt, podOfBytes_bytesOfPod id.toNat_lt,
    podOfBytes_bytesOfPod lastSeen.toBitVec.isLt, UInt32.ofNat_toNat, UInt32.ofNat_toNat,
    UInt64.ofNat_toNat, BitVec.ofNat_toNat, BitVec.setWidth_eq]
  rfl

/-- The entry as the peer list has it. -/
def toEntry (p : PackedPeer) : PeerlistEntry := ⟨p.adr, p.id, p.lastSeen.toInt⟩

end PackedPeer

/-- `connection_entry`, packed. -/
structure ConnectionEntry where
  adr : NetAddress
  id : UInt64
  isIncome : Bool
  deriving DecidableEq

namespace ConnectionEntry

/-- The packed bytes, without padding. -/
def toBytes (c : ConnectionEntry) : Blob :=
  bytesOfPod 4 c.adr.ip.toNat ++ (bytesOfPod 4 c.adr.port.toNat ++
    (bytesOfPod 8 c.id.toNat ++ [if c.isIncome then 1 else 0]))

/-- The structure of packed bytes. -/
def ofBytes (s : Blob) : ConnectionEntry where
  adr := ⟨UInt32.ofNat (podOfBytes (s.take 4)), UInt32.ofNat (podOfBytes ((s.drop 4).take 4))⟩
  id := UInt64.ofNat (podOfBytes ((s.drop 8).take 8))
  isIncome := (s.drop 16).head?.any (· != 0)

theorem toBytes_length (c : ConnectionEntry) : c.toBytes.length = 17 := by
  unfold toBytes
  simp only [List.length_append, bytesOfPod_length, List.length_singleton]

/-- It is read back from them. -/
theorem ofBytes_toBytes (c : ConnectionEntry) : ofBytes c.toBytes = c := by
  obtain ⟨⟨ip, port⟩, id, isIncome⟩ := c
  have hip : (bytesOfPod 4 ip.toNat).length = 4 := bytesOfPod_length ..
  have hport : (bytesOfPod 4 port.toNat).length = 4 := bytesOfPod_length ..
  have hid : (bytesOfPod 8 id.toNat).length = 8 := bytesOfPod_length ..
  have hdrop4 : (toBytes ⟨⟨ip, port⟩, id, isIncome⟩).drop 4 = bytesOfPod 4 port.toNat ++
      (bytesOfPod 8 id.toNat ++ [if isIncome then 1 else 0]) := List.drop_left' hip
  have hdrop8 : (toBytes ⟨⟨ip, port⟩, id, isIncome⟩).drop 8 =
      bytesOfPod 8 id.toNat ++ [if isIncome then 1 else 0] := by
    rw [show 8 = 4 + 4 from rfl, ← List.drop_drop, hdrop4, List.drop_left' hport]
  have hdrop16 : (toBytes ⟨⟨ip, port⟩, id, isIncome⟩).drop 16 = [if isIncome then 1 else 0] := by
    rw [show 16 = 8 + 8 from rfl, ← List.drop_drop, hdrop8, List.drop_left' hid]
  have htake : (toBytes ⟨⟨ip, port⟩, id, isIncome⟩).take 4 = bytesOfPod 4 ip.toNat :=
    List.take_left' hip
  have hincome : ([if isIncome then 1 else 0] : Blob).head?.any (· != 0) = isIncome := by
    cases isIncome <;> rfl
  unfold ofBytes
  rw [htake, hdrop4, hdrop8, hdrop16, hincome, List.take_left' hport, List.take_left' hid,
    podOfBytes_bytesOfPod ip.toNat_lt, podOfBytes_bytesOfPod port.toNat_lt,
    podOfBytes_bytesOfPod id.toNat_lt, UInt32.ofNat_toNat, UInt32.ofNat_toNat, UInt64.ofNat_toNat]

end ConnectionEntry

/-- `uuid`, by which networks are told apart. -/
abbrev Uuid := BitVec 128

/-- `basic_node_data`. -/
structure BasicNodeData where
  networkId : Uuid
  localTime : Int64
  myPort : UInt32
  peerId : UInt64
  deriving DecidableEq, Inhabited

/-- `alert_condition`. -/
structure AlertCondition where
  ifBuildLessThen : UInt32
  alertMode : UInt8
  deriving DecidableEq, Inhabited

/-- `maintainers_info`. -/
structure MaintainersInfo where
  timestamp : UInt64
  verMajor : UInt8
  verMinor : UInt8
  verRevision : UInt8
  buildNo : UInt32
  conditions : List AlertCondition
  deriving DecidableEq, Inhabited

/-- `maintainers_entry`: the information as a blob, and the maintainers' signature of it. -/
structure MaintainersEntry where
  maintainersInfoBuff : Blob
  sign : Signature
  deriving DecidableEq, Inhabited

/-- `KV` map of `basic_node_data`. -/
def BasicNodeData.kvMap : KvMap BasicNodeData where
  fields := [
    ⟨nameOf "network_id", _, Kind.bits 16, networkId, fun v x => { x with networkId := v }⟩,
    ⟨nameOf "peer_id", _, .uint64, peerId, fun v x => { x with peerId := v }⟩,
    ⟨nameOf "local_time", _, .int64, localTime, fun v x => { x with localTime := v }⟩,
    ⟨nameOf "my_port", _, .uint32, myPort, fun v x => { x with myPort := v }⟩]
  distinct := by decide
  whole _ _ := rfl

/-- `KV` map of `alert_condition`. -/
def AlertCondition.kvMap : KvMap AlertCondition where
  fields := [
    ⟨nameOf "build", _, .uint32, ifBuildLessThen, fun v x => { x with ifBuildLessThen := v }⟩,
    ⟨nameOf "mode", _, .uint8, alertMode, fun v x => { x with alertMode := v }⟩]
  distinct := by decide
  whole _ _ := rfl

/-- `KV` map of `maintainers_info`. -/
def MaintainersInfo.kvMap : KvMap MaintainersInfo where
  fields := [
    ⟨nameOf "ts", _, .uint64, timestamp, fun v x => { x with timestamp := v }⟩,
    ⟨nameOf "maj", _, .uint8, verMajor, fun v x => { x with verMajor := v }⟩,
    ⟨nameOf "min", _, .uint8, verMinor, fun v x => { x with verMinor := v }⟩,
    ⟨nameOf "rev", _, .uint8, verRevision, fun v x => { x with verRevision := v }⟩,
    ⟨nameOf "build", _, .uint32, buildNo, fun v x => { x with buildNo := v }⟩,
    ⟨nameOf "cs", _, .objects AlertCondition.kvMap ⟨0, 0⟩, conditions,
      fun v x => { x with conditions := v }⟩]
  distinct := by decide
  whole _ _ := rfl

/-- `KV` map of `maintainers_entry`. -/
def MaintainersEntry.kvMap : KvMap MaintainersEntry where
  fields := [
    ⟨nameOf "maintainers_info_buff", _, .string, maintainersInfoBuff,
      fun v x => { x with maintainersInfoBuff := v }⟩,
    ⟨nameOf "sign", _, .signature, sign, fun v x => { x with sign := v }⟩]
  distinct := by decide
  whole _ _ := rfl

/-- The list of peers, sent as one string. -/
def peerlist : Kind (List PackedPeer) :=
  .containerPodAsBlob 24 (by decide) PackedPeer.toBytes PackedPeer.ofBytes PackedPeer.toBytes_length
    PackedPeer.ofBytes_toBytes

/-- The list of connections, sent as one string. -/
def connectionsList : Kind (List ConnectionEntry) :=
  .containerPodAsBlob 17 (by decide) ConnectionEntry.toBytes ConnectionEntry.ofBytes
    ConnectionEntry.toBytes_length ConnectionEntry.ofBytes_toBytes

end Nodetool

/-! ## `currency_protocol_defs.h`, `currency_stat_info.h` -/

namespace CurrencyProtocol

/-- `CORE_SYNC_DATA`. -/
structure SyncData where
  currentHeight : UInt64
  topId : Hash
  lastCheckpointHeight : UInt64
  deriving DecidableEq, Inhabited

/-- `block_complete_entry`. -/
structure CompleteEntry where
  block : Blob
  txs : List Blob
  deriving DecidableEq, Inhabited

/-- `NOTIFY_NEW_BLOCK::request`. -/
structure NewBlock where
  b : CompleteEntry
  currentBlockchainHeight : UInt64
  hop : UInt32
  deriving DecidableEq, Inhabited

/-- `NOTIFY_NEW_TRANSACTIONS::request`. -/
structure NewTransactions where
  txs : List Blob
  deriving DecidableEq, Inhabited

/-- `NOTIFY_REQUEST_GET_OBJECTS::request`. -/
structure RequestGetObjects where
  txs : List Hash
  blocks : List Hash
  deriving DecidableEq, Inhabited

/-- `NOTIFY_RESPONSE_GET_OBJECTS::request`. -/
structure ResponseGetObjects where
  txs : List Blob
  blocks : List CompleteEntry
  missedIds : List Hash
  currentBlockchainHeight : UInt64
  deriving DecidableEq, Inhabited

/-- `NOTIFY_REQUEST_CHAIN::request`. -/
structure RequestChain where
  blockIds : List Hash
  deriving DecidableEq, Inhabited

/-- `NOTIFY_RESPONSE_CHAIN_ENTRY::request`. -/
structure ResponseChainEntry where
  startHeight : UInt64
  totalHeight : UInt64
  mBlockIds : List Hash
  deriving DecidableEq, Inhabited

/-- `core_stat_info`. -/
structure CoreStatInfo where
  txPoolSize : UInt64
  blockchainHeight : UInt64
  miningSpeed : UInt64
  alternativeBlocks : UInt64
  topBlockIdStr : Blob
  deriving DecidableEq, Inhabited

/-- `KV` map of `CORE_SYNC_DATA`. -/
def SyncData.kvMap : KvMap SyncData where
  fields := [
    ⟨nameOf "current_height", _, .uint64, currentHeight, fun v x => { x with currentHeight := v }⟩,
    ⟨nameOf "top_id", _, .hash, topId, fun v x => { x with topId := v }⟩,
    ⟨nameOf "last_checkpoint_height", _, .uint64, lastCheckpointHeight,
      fun v x => { x with lastCheckpointHeight := v }⟩]
  distinct := by decide
  whole _ _ := rfl

/-- `KV` map of `block_complete_entry`. -/
def CompleteEntry.kvMap : KvMap CompleteEntry where
  fields := [
    ⟨nameOf "block", _, .string, block, fun v x => { x with block := v }⟩,
    ⟨nameOf "txs", _, .strings, txs, fun v x => { x with txs := v }⟩]
  distinct := by decide
  whole _ _ := rfl

/-- `KV` map of the request of `NOTIFY_NEW_BLOCK`. -/
def NewBlock.kvMap : KvMap NewBlock where
  fields := [
    ⟨nameOf "b", _, .object CompleteEntry.kvMap, b, fun v x => { x with b := v }⟩,
    ⟨nameOf "current_blockchain_height", _, .uint64, currentBlockchainHeight,
      fun v x => { x with currentBlockchainHeight := v }⟩,
    ⟨nameOf "hop", _, .uint32, hop, fun v x => { x with hop := v }⟩]
  distinct := by decide
  whole _ _ := rfl

/-- `KV` map of the request of `NOTIFY_NEW_TRANSACTIONS`. -/
def NewTransactions.kvMap : KvMap NewTransactions where
  fields := [⟨nameOf "txs", _, .strings, txs, fun v x => { x with txs := v }⟩]
  distinct := by decide
  whole _ _ := rfl

/-- `KV` map of the request of `NOTIFY_REQUEST_GET_OBJECTS`. -/
def RequestGetObjects.kvMap : KvMap RequestGetObjects where
  fields := [
    ⟨nameOf "txs", _, .hashes, txs, fun v x => { x with txs := v }⟩,
    ⟨nameOf "blocks", _, .hashes, blocks, fun v x => { x with blocks := v }⟩]
  distinct := by decide
  whole _ _ := rfl

/-- `KV` map of the request of `NOTIFY_RESPONSE_GET_OBJECTS`. -/
def ResponseGetObjects.kvMap : KvMap ResponseGetObjects where
  fields := [
    ⟨nameOf "txs", _, .strings, txs, fun v x => { x with txs := v }⟩,
    ⟨nameOf "blocks", _, .objects CompleteEntry.kvMap ⟨[], []⟩, blocks,
      fun v x => { x with blocks := v }⟩,
    ⟨nameOf "missed_ids", _, .hashes, missedIds, fun v x => { x with missedIds := v }⟩,
    ⟨nameOf "current_blockchain_height", _, .uint64, currentBlockchainHeight,
      fun v x => { x with currentBlockchainHeight := v }⟩]
  distinct := by decide
  whole _ _ := rfl

/-- `KV` map of the request of `NOTIFY_REQUEST_CHAIN`. -/
def RequestChain.kvMap : KvMap RequestChain where
  fields := [⟨nameOf "block_ids", _, .hashes, blockIds, fun v x => { x with blockIds := v }⟩]
  distinct := by decide
  whole _ _ := rfl

/-- `KV` map of the request of `NOTIFY_RESPONSE_CHAIN_ENTRY`. -/
def ResponseChainEntry.kvMap : KvMap ResponseChainEntry where
  fields := [
    ⟨nameOf "start_height", _, .uint64, startHeight, fun v x => { x with startHeight := v }⟩,
    ⟨nameOf "total_height", _, .uint64, totalHeight, fun v x => { x with totalHeight := v }⟩,
    ⟨nameOf "m_block_ids", _, .hashes, mBlockIds, fun v x => { x with mBlockIds := v }⟩]
  distinct := by decide
  whole _ _ := rfl

/-- `KV` map of `core_stat_info`. -/
def CoreStatInfo.kvMap : KvMap CoreStatInfo where
  fields := [
    ⟨nameOf "tx_pool_size", _, .uint64, txPoolSize, fun v x => { x with txPoolSize := v }⟩,
    ⟨nameOf "blockchain_height", _, .uint64, blockchainHeight,
      fun v x => { x with blockchainHeight := v }⟩,
    ⟨nameOf "mining_speed", _, .uint64, miningSpeed, fun v x => { x with miningSpeed := v }⟩,
    ⟨nameOf "alternative_blocks", _, .uint64, alternativeBlocks,
      fun v x => { x with alternativeBlocks := v }⟩,
    ⟨nameOf "top_block_id_str", _, .string, topBlockIdStr,
      fun v x => { x with topBlockIdStr := v }⟩]
  distinct := by decide
  whole _ _ := rfl

end CurrencyProtocol

/-! ## Commands -/

namespace Nodetool

open CurrencyProtocol

/-- `COMMAND_HANDSHAKE_T::request`. -/
structure HandshakeRequest where
  nodeData : BasicNodeData
  payloadData : SyncData
  maintrsEntry : MaintainersEntry
  deriving DecidableEq, Inhabited

/-- `COMMAND_HANDSHAKE_T::response`. -/
structure HandshakeResponse where
  nodeData : BasicNodeData
  payloadData : SyncData
  localPeerlist : List PackedPeer
  maintrsEntry : MaintainersEntry
  deriving DecidableEq, Inhabited

/-- `COMMAND_TIMED_SYNC_T::request`. -/
structure TimedSyncRequest where
  payloadData : SyncData
  maintrsEntry : MaintainersEntry
  deriving DecidableEq, Inhabited

/-- `COMMAND_TIMED_SYNC_T::response`. -/
structure TimedSyncResponse where
  localTime : Int64
  payloadData : SyncData
  localPeerlist : List PackedPeer
  maintrsEntry : MaintainersEntry
  deriving DecidableEq, Inhabited

/-- `COMMAND_PING::response`. -/
structure PingResponse where
  status : Blob
  peerId : UInt64
  deriving DecidableEq, Inhabited

/-- `COMMAND_REQUEST_STAT_INFO_T::response`. -/
structure StatInfoResponse where
  version : Blob
  connectionsCount : UInt64
  incomingConnectionsCount : UInt64
  payloadInfo : CoreStatInfo
  deriving DecidableEq, Inhabited

/-- `COMMAND_REQUEST_NETWORK_STATE::response`. -/
structure NetworkStateResponse where
  localPeerlistWhite : List PackedPeer
  localPeerlistGray : List PackedPeer
  connectionsList : List ConnectionEntry
  myId : UInt64
  localTime : Int64
  deriving DecidableEq, Inhabited

/-- `COMMAND_REQUEST_PEER_ID::response`. -/
structure PeerIdResponse where
  myId : UInt64
  deriving DecidableEq, Inhabited

/-- `proof_of_trust`. -/
structure ProofOfTrust where
  peerId : UInt64
  time : Int64
  sign : Signature
  deriving DecidableEq, Inhabited

/-- `KV` map of the request of `COMMAND_HANDSHAKE_T`. -/
def HandshakeRequest.kvMap : KvMap HandshakeRequest where
  fields := [
    ⟨nameOf "node_data", _, .object BasicNodeData.kvMap, nodeData,
      fun v x => { x with nodeData := v }⟩,
    ⟨nameOf "payload_data", _, .object SyncData.kvMap, payloadData,
      fun v x => { x with payloadData := v }⟩,
    ⟨nameOf "maintrs_entry", _, .object MaintainersEntry.kvMap, maintrsEntry,
      fun v x => { x with maintrsEntry := v }⟩]
  distinct := by decide
  whole _ _ := rfl

/-- `KV` map of the response of `COMMAND_HANDSHAKE_T`. -/
def HandshakeResponse.kvMap : KvMap HandshakeResponse where
  fields := [
    ⟨nameOf "node_data", _, .object BasicNodeData.kvMap, nodeData,
      fun v x => { x with nodeData := v }⟩,
    ⟨nameOf "payload_data", _, .object SyncData.kvMap, payloadData,
      fun v x => { x with payloadData := v }⟩,
    ⟨nameOf "local_peerlist", _, peerlist, localPeerlist,
      fun v x => { x with localPeerlist := v }⟩,
    ⟨nameOf "maintrs_entry", _, .object MaintainersEntry.kvMap, maintrsEntry,
      fun v x => { x with maintrsEntry := v }⟩]
  distinct := by decide
  whole _ _ := rfl

/-- `KV` map of the request of `COMMAND_TIMED_SYNC_T`. -/
def TimedSyncRequest.kvMap : KvMap TimedSyncRequest where
  fields := [
    ⟨nameOf "payload_data", _, .object SyncData.kvMap, payloadData,
      fun v x => { x with payloadData := v }⟩,
    ⟨nameOf "maintrs_entry", _, .object MaintainersEntry.kvMap, maintrsEntry,
      fun v x => { x with maintrsEntry := v }⟩]
  distinct := by decide
  whole _ _ := rfl

/-- `KV` map of the response of `COMMAND_TIMED_SYNC_T`. -/
def TimedSyncResponse.kvMap : KvMap TimedSyncResponse where
  fields := [
    ⟨nameOf "local_time", _, .int64, localTime, fun v x => { x with localTime := v }⟩,
    ⟨nameOf "payload_data", _, .object SyncData.kvMap, payloadData,
      fun v x => { x with payloadData := v }⟩,
    ⟨nameOf "local_peerlist", _, peerlist, localPeerlist,
      fun v x => { x with localPeerlist := v }⟩,
    ⟨nameOf "maintrs_entry", _, .object MaintainersEntry.kvMap, maintrsEntry,
      fun v x => { x with maintrsEntry := v }⟩]
  distinct := by decide
  whole _ _ := rfl

/-- `KV` map of the response of `COMMAND_PING`. -/
def PingResponse.kvMap : KvMap PingResponse where
  fields := [
    ⟨nameOf "status", _, .string, status, fun v x => { x with status := v }⟩,
    ⟨nameOf "peer_id", _, .uint64, peerId, fun v x => { x with peerId := v }⟩]
  distinct := by decide
  whole _ _ := rfl

/-- `KV` map of the response of `COMMAND_REQUEST_STAT_INFO_T`. -/
def StatInfoResponse.kvMap : KvMap StatInfoResponse where
  fields := [
    ⟨nameOf "version", _, .string, version, fun v x => { x with version := v }⟩,
    ⟨nameOf "connections_count", _, .uint64, connectionsCount,
      fun v x => { x with connectionsCount := v }⟩,
    ⟨nameOf "incoming_connections_count", _, .uint64, incomingConnectionsCount,
      fun v x => { x with incomingConnectionsCount := v }⟩,
    ⟨nameOf "payload_info", _, .object CoreStatInfo.kvMap, payloadInfo,
      fun v x => { x with payloadInfo := v }⟩]
  distinct := by decide
  whole _ _ := rfl

/-- `KV` map of the response of `COMMAND_REQUEST_NETWORK_STATE`. -/
def NetworkStateResponse.kvMap : KvMap NetworkStateResponse where
  fields := [
    ⟨nameOf "local_peerlist_white", _, peerlist, localPeerlistWhite,
      fun v x => { x with localPeerlistWhite := v }⟩,
    ⟨nameOf "local_peerlist_gray", _, peerlist, localPeerlistGray,
      fun v x => { x with localPeerlistGray := v }⟩,
    ⟨nameOf "connections_list", _, Nodetool.connectionsList, connectionsList,
      fun v x => { x with connectionsList := v }⟩,
    ⟨nameOf "my_id", _, .uint64, myId, fun v x => { x with myId := v }⟩,
    ⟨nameOf "local_time", _, .int64, localTime, fun v x => { x with localTime := v }⟩]
  distinct := by decide
  whole _ _ := rfl

/-- `KV` map of the response of `COMMAND_REQUEST_PEER_ID`. -/
def PeerIdResponse.kvMap : KvMap PeerIdResponse where
  fields := [⟨nameOf "my_id", _, .uint64, myId, fun v x => { x with myId := v }⟩]
  distinct := by decide
  whole _ _ := rfl

/-- `KV` map of `proof_of_trust`. -/
def ProofOfTrust.kvMap : KvMap ProofOfTrust where
  fields := [
    ⟨nameOf "peer_id", _, .uint64, peerId, fun v x => { x with peerId := v }⟩,
    ⟨nameOf "time", _, .int64, time, fun v x => { x with time := v }⟩,
    ⟨nameOf "sign", _, .signature, sign, fun v x => { x with sign := v }⟩]
  distinct := by decide
  whole _ _ := rfl

/-- A structure with no members. -/
def emptyMap : KvMap Unit where
  fields := []
  distinct := List.nodup_nil
  whole _ _ := rfl

/-- `COMMAND_REQUEST_STAT_INFO_T::request`, `COMMAND_REQUEST_NETWORK_STATE::request`. -/
def trustMap : KvMap ProofOfTrust where
  fields := [⟨nameOf "tr", _, .object ProofOfTrust.kvMap, id, fun v _ => v⟩]
  distinct := by decide
  whole _ _ := rfl

/-- `P2P_COMMANDS_POOL_BASE`. -/
def p2pCommandsPoolBase : Nat := 1000

/-- `BC_COMMANDS_POOL_BASE`. -/
def bcCommandsPoolBase : Nat := 2000

/-- `P2P_DEFAULT_PACKET_MAX_SIZE`. -/
def p2pDefaultPacketMaxSize : Nat := 50000000

/-- What a node hands to the handlers of another. -/
inductive Message where
  | handshake (arg : HandshakeRequest)
  | timedSync (arg : TimedSyncRequest)
  | ping
  | requestStatInfo (tr : ProofOfTrust)
  | requestNetworkState (tr : ProofOfTrust)
  | requestPeerId
  | newBlock (arg : NewBlock)
  | newTransactions (arg : NewTransactions)
  | requestGetObjects (arg : RequestGetObjects)
  | responseGetObjects (arg : ResponseGetObjects)
  | requestChain (arg : RequestChain)
  | responseChainEntry (arg : ResponseChainEntry)

namespace Message

/-- The `ID` of the command. -/
def command : Message → Nat
  | handshake _ => p2pCommandsPoolBase + 1
  | timedSync _ => p2pCommandsPoolBase + 2
  | ping => p2pCommandsPoolBase + 3
  | requestStatInfo _ => p2pCommandsPoolBase + 4
  | requestNetworkState _ => p2pCommandsPoolBase + 5
  | requestPeerId => p2pCommandsPoolBase + 6
  | newBlock _ => bcCommandsPoolBase + 1
  | newTransactions _ => bcCommandsPoolBase + 2
  | requestGetObjects _ => bcCommandsPoolBase + 3
  | responseGetObjects _ => bcCommandsPoolBase + 4
  | requestChain _ => bcCommandsPoolBase + 6
  | responseChainEntry _ => bcCommandsPoolBase + 7

/-- The commands of the currency are not answered. -/
def isNotify : Message → Bool
  | handshake _ | timedSync _ | ping | requestStatInfo _ | requestNetworkState _
  | requestPeerId => false
  | _ => true

/-- The bytes that are sent. -/
def store : Message → Option Blob
  | handshake arg => HandshakeRequest.kvMap.storeTToBinary arg
  | timedSync arg => TimedSyncRequest.kvMap.storeTToBinary arg
  | ping => emptyMap.storeTToBinary ()
  | requestStatInfo tr => trustMap.storeTToBinary tr
  | requestNetworkState tr => trustMap.storeTToBinary tr
  | requestPeerId => emptyMap.storeTToBinary ()
  | newBlock arg => NewBlock.kvMap.storeTToBinary arg
  | newTransactions arg => NewTransactions.kvMap.storeTToBinary arg
  | requestGetObjects arg => RequestGetObjects.kvMap.storeTToBinary arg
  | responseGetObjects arg => ResponseGetObjects.kvMap.storeTToBinary arg
  | requestChain arg => RequestChain.kvMap.storeTToBinary arg
  | responseChainEntry arg => ResponseChainEntry.kvMap.storeTToBinary arg

end Message

/-- `handle_invoke_map` up to the call of the handler: that of the node, and that of the currency
behind it. -/
def handleInvokeMap (isNotify : Bool) (command : Nat) (inBuff : Blob) : Option Message :=
  match isNotify, command with
  | false, 1001 => (HandshakeRequest.kvMap.inStruct default inBuff).map .handshake
  | false, 1002 => (TimedSyncRequest.kvMap.inStruct default inBuff).map .timedSync
  | false, 1003 => (emptyMap.inStruct default inBuff).map fun _ => .ping
  | false, 1004 => (trustMap.inStruct default inBuff).map .requestStatInfo
  | false, 1005 => (trustMap.inStruct default inBuff).map .requestNetworkState
  | false, 1006 => (emptyMap.inStruct default inBuff).map fun _ => .requestPeerId
  | true, 2001 => (NewBlock.kvMap.inStruct default inBuff).map .newBlock
  | true, 2002 => (NewTransactions.kvMap.inStruct default inBuff).map .newTransactions
  | true, 2003 => (RequestGetObjects.kvMap.inStruct default inBuff).map .requestGetObjects
  | true, 2004 => (ResponseGetObjects.kvMap.inStruct default inBuff).map .responseGetObjects
  | true, 2006 => (RequestChain.kvMap.inStruct default inBuff).map .requestChain
  | true, 2007 => (ResponseChainEntry.kvMap.inStruct default inBuff).map .responseChainEntry
  | _, _ => none

/-- What a handler returns. -/
inductive Answer where
  | handshake (rsp : HandshakeResponse)
  | timedSync (rsp : TimedSyncResponse)
  | ping (rsp : PingResponse)
  | requestStatInfo (rsp : StatInfoResponse)
  | requestNetworkState (rsp : NetworkStateResponse)
  | requestPeerId (rsp : PeerIdResponse)

namespace Answer

/-- The command an answer belongs to. -/
def command : Answer → Nat
  | handshake _ => p2pCommandsPoolBase + 1
  | timedSync _ => p2pCommandsPoolBase + 2
  | ping _ => p2pCommandsPoolBase + 3
  | requestStatInfo _ => p2pCommandsPoolBase + 4
  | requestNetworkState _ => p2pCommandsPoolBase + 5
  | requestPeerId _ => p2pCommandsPoolBase + 6

/-- The answer as it is sent. -/
def store : Answer → Option Blob
  | handshake rsp => HandshakeResponse.kvMap.storeTToBinary rsp
  | timedSync rsp => TimedSyncResponse.kvMap.storeTToBinary rsp
  | ping rsp => PingResponse.kvMap.storeTToBinary rsp
  | requestStatInfo rsp => StatInfoResponse.kvMap.storeTToBinary rsp
  | requestNetworkState rsp => NetworkStateResponse.kvMap.storeTToBinary rsp
  | requestPeerId rsp => PeerIdResponse.kvMap.storeTToBinary rsp

end Answer

/-- What `async_invoke_remote_command2` gives to the callback of a command, and
`invoke_remote_command2` to the caller. -/
def resultStruct (command : Nat) (buff : Blob) : Option Answer :=
  match command with
  | 1001 => (HandshakeResponse.kvMap.inStruct default buff).map .handshake
  | 1002 => (TimedSyncResponse.kvMap.inStruct default buff).map .timedSync
  | 1003 => (PingResponse.kvMap.inStruct default buff).map .ping
  | 1004 => (StatInfoResponse.kvMap.inStruct default buff).map .requestStatInfo
  | 1005 => (NetworkStateResponse.kvMap.inStruct default buff).map .requestNetworkState
  | 1006 => (PeerIdResponse.kvMap.inStruct default buff).map .requestPeerId
  | _ => none

theorem inStruct_map {σ τ : Type} {m : KvMap σ} {x : σ} {bytes : Blob}
    (hstore : m.storeTToBinary x = some bytes) (hneed : m.need < recursionBudget)
    (hlen : bytes.length ≤ p2pDefaultPacketMaxSize) (rest : Blob) (new : σ) (f : σ → τ) :
    (m.inStruct new (bytes ++ rest)).map f = some (f x) := by
  have hmax : p2pDefaultPacketMaxSize < maxStringLenPossible := by decide
  rw [m.inStruct_storeTToBinary hneed hstore (Nat.lt_of_le_of_lt hlen hmax), Option.map_some]

/-- A message that fits into a packet is handled as the message that was sent, whatever follows it,
and so is an answer. -/
theorem heard_as_said :
    (∀ (m : Message) (bytes rest : Blob), m.store = some bytes →
      bytes.length ≤ p2pDefaultPacketMaxSize →
        handleInvokeMap m.isNotify m.command (bytes ++ rest) = some m) ∧
    ∀ (a : Answer) (bytes rest : Blob), a.store = some bytes →
      bytes.length ≤ p2pDefaultPacketMaxSize →
        resultStruct a.command (bytes ++ rest) = some a := by
  refine ⟨fun m bytes rest hstore hlen => ?_, fun a bytes rest hstore hlen => ?_⟩
  · cases m with
    | handshake arg => exact inStruct_map hstore (by decide) hlen rest default Message.handshake
    | timedSync arg => exact inStruct_map hstore (by decide) hlen rest default Message.timedSync
    | ping => exact inStruct_map hstore (by decide) hlen rest default fun _ => Message.ping
    | requestStatInfo tr =>
      exact inStruct_map hstore (by decide) hlen rest default Message.requestStatInfo
    | requestNetworkState tr =>
      exact inStruct_map hstore (by decide) hlen rest default Message.requestNetworkState
    | requestPeerId =>
      exact inStruct_map hstore (by decide) hlen rest default fun _ => Message.requestPeerId
    | newBlock arg => exact inStruct_map hstore (by decide) hlen rest default Message.newBlock
    | newTransactions arg =>
      exact inStruct_map hstore (by decide) hlen rest default Message.newTransactions
    | requestGetObjects arg =>
      exact inStruct_map hstore (by decide) hlen rest default Message.requestGetObjects
    | responseGetObjects arg =>
      exact inStruct_map hstore (by decide) hlen rest default Message.responseGetObjects
    | requestChain arg =>
      exact inStruct_map hstore (by decide) hlen rest default Message.requestChain
    | responseChainEntry arg =>
      exact inStruct_map hstore (by decide) hlen rest default Message.responseChainEntry
  · cases a with
    | handshake rsp => exact inStruct_map hstore (by decide) hlen rest default Answer.handshake
    | timedSync rsp => exact inStruct_map hstore (by decide) hlen rest default Answer.timedSync
    | ping rsp => exact inStruct_map hstore (by decide) hlen rest default Answer.ping
    | requestStatInfo rsp =>
      exact inStruct_map hstore (by decide) hlen rest default Answer.requestStatInfo
    | requestNetworkState rsp =>
      exact inStruct_map hstore (by decide) hlen rest default Answer.requestNetworkState
    | requestPeerId rsp =>
      exact inStruct_map hstore (by decide) hlen rest default Answer.requestPeerId

/-- A notification of a transaction of one byte. -/
def oneTx : Blob :=
  storageBlockHeader ++ [4, 3, 116, 120, 115, 138, 4, 4, 7]

theorem heard_as_said_oneTx :
    handleInvokeMap true 2002 (oneTx ++ [0]) = some (.newTransactions ⟨[[7]]⟩) :=
  heard_as_said.1 (.newTransactions ⟨[[7]]⟩) oneTx [0] rfl (by decide)

end Nodetool

end DarknetSpace
