import ReKernelX.Foundation.Packets
import ReKernelX.Module.Genl
import ReKernelX.Module.NetUid

/-!
# Reporting packets to monitored apps

`rkx_nf_local_in` runs for every packet that is delivered on the machine. When
the packet is a TCP segment for a socket of a monitored app, it reports the
number of bytes behind the TCP header, which it computes from the lengths in the
IP header and the data offset in the TCP header. Segments without data are only
reported when they open, close or reset a connection.

The IP layer has checked its own lengths by then, but TCP has not looked at the
data offset. A segment that opens, closes or resets a connection is reported
with whatever the subtraction gives.
-/

set_option autoImplicit false

namespace ReKernelX

open Packets

/-! ### The code -/

/-- What the hook reads of a socket: whether it is a full one, and the owner of its
inode if it has one. -/
structure Sock where
  fullsock : Bool
  socketUid : Option UInt32

/-- What `ipv6_find_hdr` returns: the protocol or an error, where its header starts, and
the fragment offset. -/
structure Ipv6Header where
  nexthdr : ℤ
  thoff : UInt32
  fragOff : UInt16

/-- `struct sk_buff`: the bytes from the network header on, whether the first so many of
them can be made contiguous, the result of `skb_to_full_sk`, and what `ipv6_find_hdr`
finds in it. -/
structure SkBuff where
  data : List UInt8
  pullable : ℕ → Bool
  sk : Option Sock
  findHdr : Ipv6Header

/-- `struct nf_hook_state`: whether the hook is `NF_INET_LOCAL_IN`, and whether there is
an input device. -/
structure NfHookState where
  localIn : Bool
  hasIn : Bool

/-- What is outside the hook: the monitored ids, whether the kernel has IPv6, and whether
a client is connected. -/
structure NfEnv where
  hash : UInt32 → Fin 64
  netUid : RkxNetUid
  ipv6 : Bool
  netlinkReady : Bool

/-- `NF_ACCEPT` -/
def nfAccept : ℕ := 1

/-- `IPPROTO_TCP` -/
def ipprotoTcp : ℕ := 6

/-- What a parser returns, and what it stored through its pointers if it did. -/
structure TcpParse where
  rc : ℤ
  proto : Option UInt8
  dataLen : Option Int32

/-- `rkx_sock_to_uid` -/
def rkxSockToUid (sk : Option Sock) : UInt32 := (sk.bind Sock.socketUid).getD 0

/-- `pskb_may_pull` -/
def pskbMayPull (skb : SkBuff) (len : UInt32) : Bool :=
  decide (len.toNat ≤ skb.data.length) && skb.pullable len.toNat

/-- How both parsers end, with the TCP header at `th`. -/
def tcpVerdict (proto : UInt8) (data : List UInt8) (th : ℕ) (dataLen : Int32) : TcpParse :=
  if dataLen ≤ 0 ∧ syn data th = false ∧ fin data th = false ∧ rst data th = false then
    ⟨-1, none, some dataLen⟩
  else ⟨0, some proto, some dataLen⟩

/-- `rkx_parse_tcp_ipv4`. The subtraction is one of `unsigned int`. -/
def rkxParseTcpIpv4 (skb : SkBuff) : TcpParse :=
  if pskbMayPull skb 20 = false then ⟨-1, none, none⟩
  else if protocol skb.data ≠ ipprotoTcp then ⟨-1, none, none⟩
  else
    let ipHdrLen := UInt32.ofNat (ihl skb.data) <<< 2
    if pskbMayPull skb (ipHdrLen.toUInt64 + 20).toUInt32 = false then ⟨-1, none, none⟩
    else
      let th := ipHdrLen.toNat
      tcpVerdict rkxNetProtoIpv4 skb.data th
        (UInt32.ofNat (totLen skb.data) - ipHdrLen - UInt32.ofNat (doff skb.data th) <<< 2).toInt32

/-- `rkx_parse_tcp_ipv6`. The subtraction is one of `size_t`. -/
def rkxParseTcpIpv6 (skb : SkBuff) : TcpParse :=
  if pskbMayPull skb 40 = false then ⟨-1, none, none⟩
  else if skb.findHdr.nexthdr ≠ ipprotoTcp then ⟨-1, none, none⟩
  else
    let thoff := skb.findHdr.thoff
    if pskbMayPull skb (thoff.toUInt64 + 20).toUInt32 = false then ⟨-1, none, none⟩
    else
      let th := thoff.toNat
      tcpVerdict rkxNetProtoIpv6 skb.data th
        (UInt64.ofNat (payloadLen skb.data) - (thoff.toUInt64 - (40 : UInt64)) -
          (UInt32.ofNat (doff skb.data th) <<< 2).toUInt64).toUInt32.toInt32

/-- The first half of `rkx_nf_local_in`: the id the packet is for, if it is monitored. -/
def inspectedUid (env : NfEnv) (skb : SkBuff) (state : NfHookState) : Option UInt32 :=
  if skb.data.length = 0 then none
  else if state.localIn = false ∨ state.hasIn = false then none
  else
    skb.sk.bind fun sk =>
      if sk.fullsock = false then none
      else
        let uid := rkxSockToUid (some sk)
        if uid < rkxMinAppUid then none
        else if rkxNetUidMonitoredRcu env.hash env.netUid uid = false then none
        else some uid

/-- The parser the second half calls. -/
def parseTcp (ipv6 : Bool) (skb : SkBuff) : TcpParse :=
  if ipVersion skb.data = 4 then rkxParseTcpIpv4 skb
  else if ipv6 = true ∧ ipVersion skb.data = 6 then rkxParseTcpIpv6 skb
  else ⟨-1, none, none⟩

/-- The second half of `rkx_nf_local_in`: the event it hands to `rkx_send_message`. Both
variables are set when the parser has not failed. -/
def reportPacket (env : NfEnv) (skb : SkBuff) (uid : UInt32) : List RkxEvent :=
  let parse := parseTcp env.ipv6 skb
  if parse.rc < 0 then []
  else if env.netlinkReady then [.network ⟨parse.proto.getD 0, uid, parse.dataLen.getD 0⟩]
  else []

/-- `rkx_nf_local_in`: the verdict, and the events sent. -/
def rkxNfLocalIn (env : NfEnv) (skb : Option SkBuff) (state : Option NfHookState) :
    ℕ × List RkxEvent :=
  (nfAccept, ((skb.bind fun skb => state.bind fun state =>
    (inspectedUid env skb state).map (reportPacket env skb)).getD []))

/-! ### Where things are in a packet -/

variable (skb : SkBuff)

/-- Where the TCP header starts. -/
def tcpStart : ℕ :=
  if ipVersion skb.data = 4 then 4 * ihl skb.data else skb.findHdr.thoff.toNat

/-- Where the IP packet ends. -/
def ipEnd : ℕ :=
  if ipVersion skb.data = 4 then totLen skb.data else 40 + payloadLen skb.data

/-- The length of what follows the IP header. -/
def ipPayloadLen : ℕ :=
  if ipVersion skb.data = 4 then totLen skb.data - 4 * ihl skb.data else payloadLen skb.data

/-- The bytes of the packet behind the TCP header, as long as its data offset says. -/
def bytesAfterTcp : List UInt8 :=
  (skb.data.take (ipEnd skb)).drop (tcpStart skb + 4 * doff skb.data (tcpStart skb))

/-- What the IP layer has made sure of, and what is taken for granted of
`ipv6_find_hdr`: a TCP header that is not part of a fragment starts inside the packet. -/
structure AcceptedByIp (skb : SkBuff) : Prop where
  ipv4 : ipVersion skb.data = 4 → 5 ≤ ihl skb.data ∧ 4 * ihl skb.data ≤ totLen skb.data ∧
    totLen skb.data ≤ skb.data.length
  ipv6 : ipVersion skb.data = 6 → 40 + payloadLen skb.data ≤ skb.data.length ∧
    (skb.findHdr.nexthdr = ipprotoTcp → skb.findHdr.fragOff = 0 ∧
      40 ≤ skb.findHdr.thoff.toNat ∧ skb.findHdr.thoff.toNat ≤ 40 + payloadLen skb.data)

/-- The parsers find a TCP header they can read. -/
def TcpFound (ipv6 : Bool) : Prop :=
  ipVersion skb.data = 4 ∧ pskbMayPull skb 20 = true ∧ protocol skb.data = ipprotoTcp ∧
    pskbMayPull skb (UInt32.ofNat (4 * ihl skb.data + 20)) = true ∨
  ipv6 = true ∧ ipVersion skb.data = 6 ∧ pskbMayPull skb 40 = true ∧
    skb.findHdr.nexthdr = ipprotoTcp ∧
    pskbMayPull skb (UInt32.ofNat (skb.findHdr.thoff.toNat + 20)) = true

/-! ### The parsers -/

variable {skb : SkBuff} {ipv6 : Bool}

/-- The verdict on a segment: it is passed on if it is of no interest. -/
theorem tcpVerdict_rc (proto : UInt8) (data : List UInt8) (th : ℕ) (dataLen : Int32) :
    (tcpVerdict proto data th dataLen).rc =
      if dataLen.toInt ≤ 0 ∧ controlFlag data th = false then -1 else 0 := by
  have hflags : controlFlag data th = false ↔
      syn data th = false ∧ fin data th = false ∧ rst data th = false := by
    rw [controlFlag, Bool.or_eq_false_iff, Bool.or_eq_false_iff, and_assoc]
  have hsign : dataLen ≤ 0 ↔ dataLen.toInt ≤ 0 := Int32.le_iff_toInt_le
  simp only [tcpVerdict, hsign, hflags]
  split_ifs <;> rfl

theorem tcpVerdict_dataLen (proto : UInt8) (data : List UInt8) (th : ℕ) (dataLen : Int32) :
    (tcpVerdict proto data th dataLen).dataLen = some dataLen := by
  rw [tcpVerdict]
  split_ifs <;> rfl

/-- The sum that is passed to `pskb_may_pull`. -/
theorem toUInt32_add_twenty (x : UInt32) :
    (x.toUInt64 + 20).toUInt32 = UInt32.ofNat (x.toNat + 20) := by
  rw [← UInt32.toNat_inj, UInt64.toNat_toUInt32, UInt64.toNat_add, UInt32.toNat_toUInt64,
    UInt32.toNat_ofNat']
  exact Nat.mod_mod_of_dvd _ (by decide)

/-- With a TCP header in reach, the IPv4 parser computes the exact difference. -/
theorem rkxParseTcpIpv4_eq (pull : pskbMayPull skb 20 = true)
    (tcp : protocol skb.data = ipprotoTcp)
    (pullTcp : pskbMayPull skb (UInt32.ofNat (4 * ihl skb.data + 20)) = true) :
    ∃ dataLen : Int32,
      rkxParseTcpIpv4 skb = tcpVerdict rkxNetProtoIpv4 skb.data (4 * ihl skb.data) dataLen ∧
      dataLen.toInt = totLen skb.data - 4 * ihl skb.data -
        4 * doff skb.data (4 * ihl skb.data) := by
  have hihl : (UInt32.ofNat (ihl skb.data) <<< 2).toNat = 4 * ihl skb.data :=
    toNat_shiftLeft_two (ihl_lt _)
  have hdoff : (UInt32.ofNat (doff skb.data (4 * ihl skb.data)) <<< 2).toNat =
      4 * doff skb.data (4 * ihl skb.data) := toNat_shiftLeft_two (doff_lt _ _)
  have htot : (UInt32.ofNat (totLen skb.data)).toNat = totLen skb.data := by
    rw [UInt32.toNat_ofNat', Nat.mod_eq_of_lt ((totLen_lt _).trans (by decide))]
  have hihlLt := ihl_lt skb.data
  have hdoffLt := doff_lt skb.data (4 * ihl skb.data)
  have htotLt := totLen_lt skb.data
  refine ⟨(UInt32.ofNat (totLen skb.data) - UInt32.ofNat (ihl skb.data) <<< 2 -
    UInt32.ofNat (doff skb.data (4 * ihl skb.data)) <<< 2).toInt32, ?_, ?_⟩
  · rw [rkxParseTcpIpv4, if_neg (ne_false_of_eq_true pull), if_neg (not_not_intro tcp)]
    dsimp only
    rw [toUInt32_add_twenty, hihl, if_neg (ne_false_of_eq_true pullTcp)]
  · rw [toInt_sub_sub, htot, hihl, hdoff]
    · omega
    · omega
    · omega
    · omega

/-- With a TCP header in reach, the IPv6 parser computes the exact difference. -/
theorem rkxParseTcpIpv6_eq (pull : pskbMayPull skb 40 = true)
    (tcp : skb.findHdr.nexthdr = ipprotoTcp)
    (pullTcp : pskbMayPull skb (UInt32.ofNat (skb.findHdr.thoff.toNat + 20)) = true)
    (behind : 40 ≤ skb.findHdr.thoff.toNat)
    (inside : skb.findHdr.thoff.toNat ≤ 40 + payloadLen skb.data) :
    ∃ dataLen : Int32,
      rkxParseTcpIpv6 skb =
        tcpVerdict rkxNetProtoIpv6 skb.data skb.findHdr.thoff.toNat dataLen ∧
      dataLen.toInt = 40 + payloadLen skb.data - skb.findHdr.thoff.toNat -
        4 * doff skb.data skb.findHdr.thoff.toNat := by
  have hdoff : ((UInt32.ofNat (doff skb.data skb.findHdr.thoff.toNat) <<< 2).toUInt64).toNat =
      4 * doff skb.data skb.findHdr.thoff.toNat := by
    rw [UInt32.toNat_toUInt64, toNat_shiftLeft_two (doff_lt _ _)]
  have hpayload : (UInt64.ofNat (payloadLen skb.data)).toNat = payloadLen skb.data := by
    rw [UInt64.toNat_ofNat', Nat.mod_eq_of_lt ((payloadLen_lt _).trans (by decide))]
  have hthoff : (skb.findHdr.thoff.toUInt64 - (40 : UInt64)).toNat =
      skb.findHdr.thoff.toNat - 40 := by
    rw [UInt64.toNat_sub_of_le, UInt32.toNat_toUInt64]
    · rfl
    · rw [UInt64.le_iff_toNat_le, UInt32.toNat_toUInt64]
      exact behind
  have hdoffLt := doff_lt skb.data skb.findHdr.thoff.toNat
  have hpayloadLt := payloadLen_lt skb.data
  refine ⟨(UInt64.ofNat (payloadLen skb.data) - (skb.findHdr.thoff.toUInt64 - (40 : UInt64)) -
    (UInt32.ofNat (doff skb.data skb.findHdr.thoff.toNat) <<< 2).toUInt64).toUInt32.toInt32,
    ?_, ?_⟩
  · rw [rkxParseTcpIpv6, if_neg (ne_false_of_eq_true pull), if_neg (not_not_intro tcp)]
    dsimp only
    rw [toUInt32_add_twenty, if_neg (ne_false_of_eq_true pullTcp)]
  · rw [toInt_sub_sub_64, hpayload, hthoff, hdoff]
    · omega
    · omega
    · omega
    · omega

/-! ### The same segment in both kinds of packet -/

/-- An IPv4 packet that carries a TCP segment, all of which can be read. -/
structure CarriedByIpv4 (skb : SkBuff) (segment : List UInt8) : Prop where
  bytes : ∃ header rest, skb.data = header ++ segment ++ rest ∧
    header.length = 4 * ihl skb.data
  header : 5 ≤ ihl skb.data
  tcp : protocol skb.data = ipprotoTcp
  length : totLen skb.data = 4 * ihl skb.data + segment.length
  pullable : ∀ n, skb.pullable n = true

/-- The same for IPv6, where any extension headers may come before the segment. -/
structure CarriedByIpv6 (skb : SkBuff) (segment : List UInt8) : Prop where
  bytes : ∃ header rest, skb.data = header ++ segment ++ rest ∧
    header.length = skb.findHdr.thoff.toNat
  header : 40 ≤ skb.findHdr.thoff.toNat
  tcp : skb.findHdr.nexthdr = ipprotoTcp
  length : payloadLen skb.data = skb.findHdr.thoff.toNat - 40 + segment.length
  pullable : ∀ n, skb.pullable n = true

/-- What is inside a packet that can be read is pulled. -/
theorem pskbMayPull_of_le (len : ℕ) (pullable : ∀ n, skb.pullable n = true)
    (fits : len ≤ skb.data.length) (small : len < 2 ^ 32) :
    pskbMayPull skb (UInt32.ofNat len) = true := by
  rw [pskbMayPull, pullable, Bool.and_true, UInt32.toNat_ofNat', Nat.mod_eq_of_lt small]
  exact decide_eq_true fits

/-- The two parsers agree on a segment, on what becomes of the packet and on the length,
which is the exact difference between the segment and its header. -/
theorem ip_parsers_agree {skb4 skb6 : SkBuff} {segment : List UInt8} (long : 20 ≤ segment.length)
    (carried4 : CarriedByIpv4 skb4 segment) (carried6 : CarriedByIpv6 skb6 segment) :
    (rkxParseTcpIpv4 skb4).rc = (rkxParseTcpIpv6 skb6).rc ∧
      ∃ dataLen : Int32, (rkxParseTcpIpv4 skb4).dataLen = some dataLen ∧
        (rkxParseTcpIpv6 skb6).dataLen = some dataLen ∧
        dataLen.toInt = segment.length - 4 * doff segment 0 := by
  obtain ⟨header4, rest4, hdata4, hheader4⟩ := carried4.bytes
  obtain ⟨header6, rest6, hdata6, hheader6⟩ := carried6.bytes
  have hsize4 : skb4.data.length = header4.length + segment.length + rest4.length := by
    rw [hdata4, List.length_append, List.length_append]
  have hsize6 : skb6.data.length = header6.length + segment.length + rest6.length := by
    rw [hdata6, List.length_append, List.length_append]
  have hihl := ihl_lt skb4.data
  have hihl5 := carried4.header
  have hthoff := carried6.header
  have hlength6 := carried6.length
  have hpayload := payloadLen_lt skb6.data
  obtain ⟨dataLen4, hparse4, hlen4⟩ := rkxParseTcpIpv4_eq
    (pskbMayPull_of_le 20 carried4.pullable (by omega) (by decide)) carried4.tcp
    (pskbMayPull_of_le _ carried4.pullable (by omega) (by omega))
  obtain ⟨dataLen6, hparse6, hlen6⟩ := rkxParseTcpIpv6_eq
    (pskbMayPull_of_le 40 carried6.pullable (by omega) (by decide)) carried6.tcp
    (pskbMayPull_of_le _ carried6.pullable (by omega) (by omega)) carried6.header (by omega)
  -- both read the fields of the segment itself
  have hdoff4 : doff skb4.data (4 * ihl skb4.data) = doff segment 0 := by
    rw [← hheader4, hdata4, doff_segment long]
  have hdoff6 : doff skb6.data skb6.findHdr.thoff.toNat = doff segment 0 := by
    rw [← hheader6, hdata6, doff_segment long]
  have hflags4 : controlFlag skb4.data (4 * ihl skb4.data) = controlFlag segment 0 := by
    rw [← hheader4, hdata4, controlFlag_segment long]
  have hflags6 : controlFlag skb6.data skb6.findHdr.thoff.toNat = controlFlag segment 0 := by
    rw [← hheader6, hdata6, controlFlag_segment long]
  have hexact4 : dataLen4.toInt = segment.length - 4 * doff segment 0 := by
    rw [hlen4, hdoff4, carried4.length]
    omega
  have hexact6 : dataLen6.toInt = segment.length - 4 * doff segment 0 := by
    rw [hlen6, hdoff6, carried6.length]
    omega
  have hsame : dataLen6 = dataLen4 := Int32.toInt_inj.mp (hexact6.trans hexact4.symm)
  rw [hparse4, hparse6, tcpVerdict_rc, tcpVerdict_rc, tcpVerdict_dataLen, tcpVerdict_dataLen,
    hflags4, hflags6, hsame]
  exact ⟨rfl, dataLen4, rfl, rfl, hexact4⟩

/-- A segment with a header of twenty bytes and one byte of data. -/
def segmentOfOne : List UInt8 :=
  List.replicate 12 0 ++ [0x50, 0x18] ++ List.replicate 6 0 ++ [97]

def ipv4OfOne : SkBuff where
  data := [0x45, 0, 0, 41, 0, 0, 0, 0, 64, 6] ++ List.replicate 10 0 ++ segmentOfOne ++ []
  pullable _ := true
  sk := none
  findHdr := ⟨-1, 0, 0⟩

def ipv6OfOne : SkBuff where
  data := [0x60, 0, 0, 0, 0, 21, 6, 64] ++ List.replicate 32 0 ++ segmentOfOne ++ []
  pullable _ := true
  sk := none
  findHdr := ⟨6, 40, 0⟩

/-- Either way the length is one. -/
theorem ip_parsers_agree_one :
    (rkxParseTcpIpv4 ipv4OfOne).rc = (rkxParseTcpIpv6 ipv6OfOne).rc ∧
      ∃ dataLen : Int32, (rkxParseTcpIpv4 ipv4OfOne).dataLen = some dataLen ∧
        (rkxParseTcpIpv6 ipv6OfOne).dataLen = some dataLen ∧ dataLen.toInt = 1 := by
  have hlong : 20 ≤ segmentOfOne.length := by decide
  exact ip_parsers_agree hlong ⟨⟨_, _, rfl, rfl⟩, by decide, rfl, rfl, fun _ => rfl⟩
    ⟨⟨_, _, rfl, rfl⟩, by decide, rfl, rfl, fun _ => rfl⟩

/-! ### The report -/

/-- What is left of the packet behind the TCP header, negative if the header goes
beyond its end. -/
def lengthAfterTcp (skb : SkBuff) : ℤ :=
  ipEnd skb - tcpStart skb - 4 * doff skb.data (tcpStart skb)

/-- The parser that is called computes what is left of the packet. -/
theorem parseTcp_of_found (accepted : AcceptedByIp skb) (found : TcpFound skb ipv6) :
    ∃ proto dataLen, parseTcp ipv6 skb = tcpVerdict proto skb.data (tcpStart skb) dataLen ∧
      dataLen.toInt = lengthAfterTcp skb := by
  rw [parseTcp, lengthAfterTcp, tcpStart, ipEnd]
  rcases found with ⟨hversion, hpull, htcp, hpullTcp⟩ | ⟨hipv6, hversion, hpull, htcp, hpullTcp⟩
  · obtain ⟨dataLen, hparse, hlen⟩ := rkxParseTcpIpv4_eq hpull htcp hpullTcp
    simp only [if_pos hversion]
    refine ⟨_, dataLen, hparse, hlen.trans ?_⟩
    omega
  · have hnot4 : ipVersion skb.data ≠ 4 := by omega
    obtain ⟨-, hbehind, hinside⟩ := (accepted.ipv6 hversion).2 htcp
    obtain ⟨dataLen, hparse, hlen⟩ := rkxParseTcpIpv6_eq hpull htcp hpullTcp hbehind hinside
    simp only [if_neg hnot4, if_pos (And.intro hipv6 hversion)]
    refine ⟨_, dataLen, hparse, hlen.trans ?_⟩
    omega

/-- Without a TCP header in reach, the packet is passed on. -/
theorem parseTcp_of_not_found (absent : ¬ TcpFound skb ipv6) : (parseTcp ipv6 skb).rc < 0 := by
  have hpassed : (-1 : ℤ) < 0 := by decide
  rw [TcpFound, not_or] at absent
  rw [parseTcp]
  split_ifs with hversion4 hversion6
  · rw [rkxParseTcpIpv4]
    dsimp only
    rw [toUInt32_add_twenty, toNat_shiftLeft_two (ihl_lt _)]
    split_ifs with hpull htcp hpullTcp
    · exact hpassed
    · exact hpassed
    · exact hpassed
    · refine absurd ⟨hversion4, ?_, ?_, ?_⟩ absent.1
      · exact Bool.eq_true_of_not_eq_false hpull
      · exact not_not.mp htcp
      · exact Bool.eq_true_of_not_eq_false hpullTcp
  · rw [rkxParseTcpIpv6]
    dsimp only
    rw [toUInt32_add_twenty]
    split_ifs with hpull htcp hpullTcp
    · exact hpassed
    · exact hpassed
    · exact hpassed
    · refine absurd ⟨hversion6.1, hversion6.2, ?_, ?_, ?_⟩ absent.2
      · exact Bool.eq_true_of_not_eq_false hpull
      · exact not_not.mp htcp
      · exact Bool.eq_true_of_not_eq_false hpullTcp
  · exact hpassed

variable {env : NfEnv} {uid : UInt32} {event : RkxEvent}

/-- A segment is reported with what is left of the packet. -/
theorem reportPacket_of_found (accepted : AcceptedByIp skb) (found : TcpFound skb env.ipv6)
    (ready : env.netlinkReady = true)
    (interesting : 0 < lengthAfterTcp skb ∨ controlFlag skb.data (tcpStart skb) = true) :
    ∃ e : RkxNetworkEvent, reportPacket env skb uid = [.network e] ∧
      e.dataLen.toInt = lengthAfterTcp skb := by
  obtain ⟨proto, dataLen, hparse, hlen⟩ := parseTcp_of_found accepted found
  have hrc : ¬ (tcpVerdict proto skb.data (tcpStart skb) dataLen).rc < 0 := by
    rw [tcpVerdict_rc, hlen, if_neg]
    · decide
    · rintro ⟨hempty, hplain⟩
      rcases interesting with hdata | hcontrol
      · omega
      · rw [hplain] at hcontrol
        cases hcontrol
  refine ⟨⟨(tcpVerdict proto skb.data (tcpStart skb) dataLen).proto.getD 0, uid, dataLen⟩, ?_, hlen⟩
  rw [reportPacket, hparse, if_neg hrc, if_pos ready, tcpVerdict_dataLen, Option.getD_some]

/-- Nothing else is reported. -/
theorem of_mem_reportPacket (accepted : AcceptedByIp skb)
    (reported : event ∈ reportPacket env skb uid) :
    TcpFound skb env.ipv6 ∧ env.netlinkReady = true ∧
      (0 < lengthAfterTcp skb ∨ controlFlag skb.data (tcpStart skb) = true) := by
  rw [reportPacket] at reported
  split_ifs at reported with hrc ready
  · cases reported
  · have hfound : TcpFound skb env.ipv6 := by
      by_contra absent
      exact hrc (parseTcp_of_not_found absent)
    refine ⟨hfound, ready, ?_⟩
    obtain ⟨proto, dataLen, hparse, hlen⟩ := parseTcp_of_found accepted hfound
    rw [hparse, tcpVerdict_rc, hlen] at hrc
    by_contra hnot
    rw [not_or, Bool.not_eq_true] at hnot
    rw [if_pos ⟨by omega, hnot.2⟩] at hrc
    exact hrc (by decide)
  · cases reported

theorem mem_rkxNfLocalIn_iff {state : Option NfHookState} :
    event ∈ (rkxNfLocalIn env (some skb) state).2 ↔
      ∃ st, state = some st ∧ ∃ uid, inspectedUid env skb st = some uid ∧
        event ∈ reportPacket env skb uid := by
  rw [rkxNfLocalIn, Option.bind_some]
  cases state with
  | none => simp
  | some st =>
    rw [Option.bind_some]
    cases huid : inspectedUid env skb st <;> simp [huid]

/-- A packet for a monitored app in which there is a TCP header to read, while a client
is connected. -/
def Inspects (env : NfEnv) (skb : SkBuff) (state : Option NfHookState) : Prop :=
  env.netlinkReady = true ∧ TcpFound skb env.ipv6 ∧
    ∃ st, state = some st ∧ (inspectedUid env skb st).isSome

/-- Every event carries the number of bytes behind the TCP header. -/
def ReportsPayload (env : NfEnv) (skb : SkBuff) (state : Option NfHookState) : Prop :=
  ∀ event ∈ (rkxNfLocalIn env (some skb) state).2, ∃ e : RkxNetworkEvent, event = .network e ∧
    e.dataLen.toInt = (bytesAfterTcp skb).length ∧
    0 ≤ e.dataLen.toInt ∧ e.dataLen.toInt ≤ ipPayloadLen skb

/-- As long as the TCP header ends inside the packet, its bytes are what is left. -/
theorem length_bytesAfterTcp (accepted : AcceptedByIp skb) (found : TcpFound skb ipv6)
    (inside : 0 ≤ lengthAfterTcp skb) :
    ((bytesAfterTcp skb).length : ℤ) = lengthAfterTcp skb ∧
      lengthAfterTcp skb ≤ ipPayloadLen skb := by
  rw [bytesAfterTcp, List.length_drop, List.length_take]
  rw [lengthAfterTcp] at inside ⊢
  rw [ipPayloadLen]
  rcases found with ⟨hversion, -⟩ | ⟨-, hversion, -, htcp, -⟩
  · obtain ⟨-, hheader, htotal⟩ := accepted.ipv4 hversion
    simp only [tcpStart, ipEnd, if_pos hversion] at inside ⊢
    omega
  · have hnot4 : ipVersion skb.data ≠ 4 := by omega
    obtain ⟨htotal, hfind⟩ := accepted.ipv6 hversion
    obtain ⟨-, hbehind, hinside⟩ := hfind htcp
    simp only [tcpStart, ipEnd, if_neg hnot4] at inside ⊢
    omega

/-- The length in the report is right exactly when no segment that opens, closes or
resets a connection is inspected whose header goes beyond the end of the packet. -/
theorem reportsPayload_iff (accepted : AcceptedByIp skb) (env : NfEnv)
    (state : Option NfHookState) :
    ReportsPayload env skb state ↔
      (Inspects env skb state → controlFlag skb.data (tcpStart skb) = true →
        tcpStart skb + 4 * doff skb.data (tcpStart skb) ≤ ipEnd skb) := by
  constructor
  · rintro hreports ⟨ready, found, st, rfl, hsome⟩ hcontrol
    obtain ⟨uid, huid⟩ := Option.isSome_iff_exists.mp hsome
    obtain ⟨e, hevents, hlen⟩ := reportPacket_of_found accepted found ready (Or.inr hcontrol)
    have hreported : RkxEvent.network e ∈ reportPacket env skb uid := by
      rw [hevents]
      exact List.mem_singleton_self _
    have hmem : RkxEvent.network e ∈ (rkxNfLocalIn env (some skb) (some st)).2 :=
      mem_rkxNfLocalIn_iff.mpr ⟨st, rfl, uid, huid, hreported⟩
    obtain ⟨e', he', -, hnonneg, -⟩ := hreports _ hmem
    obtain rfl := RkxEvent.network.inj he'
    rw [hlen, lengthAfterTcp] at hnonneg
    omega
  · intro hinside event hmem
    obtain ⟨st, rfl, uid, huid, hreported⟩ := mem_rkxNfLocalIn_iff.mp hmem
    obtain ⟨found, ready, hinteresting⟩ := of_mem_reportPacket accepted hreported
    have hnonneg : 0 ≤ lengthAfterTcp skb := by
      rcases hinteresting with hdata | hcontrol
      · exact hdata.le
      · have := hinside ⟨ready, found, st, rfl, Option.isSome_of_eq_some huid⟩ hcontrol
        rw [lengthAfterTcp]
        omega
    obtain ⟨hbytes, hpayload⟩ := length_bytesAfterTcp accepted found hnonneg
    obtain ⟨e, hevents, hlen⟩ := reportPacket_of_found accepted found ready hinteresting
    rw [hevents, List.mem_singleton] at hreported
    refine ⟨e, hreported, ?_, ?_, ?_⟩
    · rw [hlen, hbytes]
    · rwa [hlen]
    · rwa [hlen]

/-- A packet of 41 bytes that opens a connection and has one byte of data, for the app
with id 10001. `offset` is the byte with the data offset. -/
def synPacket (offset : UInt8) : SkBuff where
  data := [0x45, 0, 0, 41, 0, 0, 0, 0, 64, 6] ++ List.replicate 22 0 ++ [offset, 2] ++
    List.replicate 6 0 ++ [97]
  pullable _ := true
  sk := some ⟨true, some 10001⟩
  findHdr := ⟨-1, 0, 0⟩

/-- A hash function. -/
def uidRemainder (uid : UInt32) : Fin 64 := ⟨uid.toNat % 64, Nat.mod_lt _ (Nat.succ_pos 63)⟩

/-- A client is connected and monitors the app. -/
def monitoringEnv : NfEnv where
  hash := uidRemainder
  netUid := rkxAddNetUid uidRemainder rkxInitNetUid 10001 true
  ipv6 := true
  netlinkReady := true

theorem acceptedByIp_synPacket (offset : UInt8) : AcceptedByIp (synPacket offset) := by
  have hfirst : byteAt (synPacket offset).data 0 = 0x45 := rfl
  have hversion : ipVersion (synPacket offset).data = 4 := by rw [ipVersion, hfirst]
  have hihl : ihl (synPacket offset).data = 5 := by rw [ihl, hfirst]
  have htotLen : totLen (synPacket offset).data = 41 := rfl
  have hlength : (synPacket offset).data.length = 41 := rfl
  constructor
  · intro _
    omega
  · intro _
    omega

/-- With a data offset of five words, the length is reported as it is. -/
theorem reportsPayload_syn :
    (rkxNfLocalIn monitoringEnv (some (synPacket 0x50)) (some ⟨true, true⟩)).2 =
        [.network ⟨4, 10001, 1⟩] ∧
      ReportsPayload monitoringEnv (synPacket 0x50) (some ⟨true, true⟩) :=
  ⟨rfl, (reportsPayload_iff (acceptedByIp_synPacket 0x50) _ _).mpr fun _ _ => by decide⟩

/-- With a data offset of fifteen words, the TCP header would end 39 bytes behind the
packet, and a length of -39 is reported. -/
theorem syn_reported_with_negative_length :
    AcceptedByIp (synPacket 0xF0) ∧
      (rkxNfLocalIn monitoringEnv (some (synPacket 0xF0)) (some ⟨true, true⟩)).2 =
        [.network ⟨4, 10001, -39⟩] ∧
      ¬ ReportsPayload monitoringEnv (synPacket 0xF0) (some ⟨true, true⟩) := by
  have hevents : (rkxNfLocalIn monitoringEnv (some (synPacket 0xF0)) (some ⟨true, true⟩)).2 =
      [.network ⟨4, 10001, -39⟩] := rfl
  refine ⟨acceptedByIp_synPacket 0xF0, hevents, fun hreports => ?_⟩
  obtain ⟨e, he, -, hnonneg, -⟩ := hreports (.network ⟨4, 10001, -39⟩)
    (by rw [hevents]; exact List.mem_singleton_self _)
  obtain rfl := RkxEvent.network.inj he
  exact absurd hnonneg (by decide)

end ReKernelX
