/-
This file models the commands of memory packets with their attributes, and the
part of a packet that the miss registers look at.
-/

import Mathlib.Data.List.Basic

namespace Gem5.Mem

/-- The commands. -/
inductive MemCmd where
  | invalidCmd
  | readReq
  | readResp
  | readRespWithInvalidate
  | writeReq
  | writeResp
  | writeback
  | softPFReq
  | hardPFReq
  | softPFResp
  | hardPFResp
  | writeInvalidateReq
  | writeInvalidateResp
  | upgradeReq
  | scUpgradeReq
  | upgradeResp
  | scUpgradeFailReq
  | upgradeFailResp
  | readExReq
  | readExResp
  | loadLockedReq
  | storeCondReq
  | storeCondFailReq
  | storeCondResp
  | swapReq
  | swapResp
  | messageReq
  | messageResp
  | invalidDestError
  | badAddressError
  | functionalReadError
  | functionalWriteError
  | printReq
  | flushReq
  | invalidationReq
deriving DecidableEq, Repr

namespace MemCmd

inductive Attribute where
  | isRead
  | isWrite
  | isUpgrade
  | isInvalidate
  | needsExclusive
  | isRequest
  | isResponse
  | needsResponse
  | isSWPrefetch
  | isHWPrefetch
  | isLlsc
  | hasData
  | isError
  | isPrint
  | isFlush
deriving DecidableEq, Repr

/-- The table of attributes. -/
def commandInfo : MemCmd → List Attribute
  | invalidCmd => []
  | readReq => [.isRead, .isRequest, .needsResponse]
  | readResp => [.isRead, .isResponse, .hasData]
  | readRespWithInvalidate => [.isRead, .isResponse, .hasData, .isInvalidate]
  | writeReq => [.isWrite, .needsExclusive, .isRequest, .needsResponse, .hasData]
  | writeResp => [.isWrite, .needsExclusive, .isResponse]
  | writeback => [.isWrite, .needsExclusive, .isRequest, .hasData]
  | softPFReq => [.isRead, .isRequest, .isSWPrefetch, .needsResponse]
  | hardPFReq => [.isRead, .isRequest, .isHWPrefetch, .needsResponse]
  | softPFResp => [.isRead, .isResponse, .isSWPrefetch, .hasData]
  | hardPFResp => [.isRead, .isResponse, .isHWPrefetch, .hasData]
  | writeInvalidateReq =>
    [.isWrite, .needsExclusive, .isInvalidate, .isRequest, .hasData, .needsResponse]
  | writeInvalidateResp => [.isWrite, .needsExclusive, .isResponse]
  | upgradeReq => [.isInvalidate, .needsExclusive, .isUpgrade, .isRequest, .needsResponse]
  | scUpgradeReq =>
    [.isInvalidate, .needsExclusive, .isUpgrade, .isLlsc, .isRequest, .needsResponse]
  | upgradeResp => [.needsExclusive, .isUpgrade, .isResponse]
  | scUpgradeFailReq =>
    [.isRead, .needsExclusive, .isInvalidate, .isLlsc, .isRequest, .needsResponse]
  | upgradeFailResp => [.isRead, .needsExclusive, .isResponse, .hasData]
  | readExReq => [.isRead, .needsExclusive, .isInvalidate, .isRequest, .needsResponse]
  | readExResp => [.isRead, .needsExclusive, .isResponse, .hasData]
  | loadLockedReq => [.isRead, .isLlsc, .isRequest, .needsResponse]
  | storeCondReq => [.isWrite, .needsExclusive, .isLlsc, .isRequest, .needsResponse, .hasData]
  | storeCondFailReq => [.isWrite, .needsExclusive, .isLlsc, .isRequest, .needsResponse, .hasData]
  | storeCondResp => [.isWrite, .needsExclusive, .isLlsc, .isResponse]
  | swapReq => [.isRead, .isWrite, .needsExclusive, .isRequest, .hasData, .needsResponse]
  | swapResp => [.isRead, .isWrite, .needsExclusive, .isResponse, .hasData]
  | messageReq => [.isWrite, .isRequest, .needsResponse, .hasData]
  | messageResp => [.isWrite, .isResponse]
  | invalidDestError => [.isResponse, .isError]
  | badAddressError => [.isResponse, .isError]
  | functionalReadError => [.isRead, .isResponse, .isError]
  | functionalWriteError => [.isWrite, .isResponse, .isError]
  | printReq => [.isRequest, .isPrint]
  | flushReq => [.isRequest, .isFlush, .needsExclusive]
  | invalidationReq => [.needsExclusive, .isInvalidate, .isRequest]

def testCmdAttrib (command : MemCmd) (attrib : Attribute) : Bool :=
  command.commandInfo.contains attrib

def isUpgrade (command : MemCmd) : Bool := command.testCmdAttrib .isUpgrade

def needsExclusive (command : MemCmd) : Bool := command.testCmdAttrib .needsExclusive

def needsResponse (command : MemCmd) : Bool := command.testCmdAttrib .needsResponse

def isInvalidate (command : MemCmd) : Bool := command.testCmdAttrib .isInvalidate

end MemCmd

/-- A packet, known by a number, with the flags the miss registers read and set. -/
structure Packet where
  number : Nat
  cmd : MemCmd
  isUncacheable : Bool
  isExpressSnoop : Bool
  sharedAsserted : Bool
  memInhibitAsserted : Bool
  supplyExclusive : Bool
deriving DecidableEq, Repr

namespace Packet

/-- A packet without flags. -/
def plain (number : Nat) (cmd : MemCmd) : Packet := ⟨number, cmd, false, false, false, false, false⟩

def needsExclusive (pkt : Packet) : Bool := pkt.cmd.needsExclusive

def isUpgrade (pkt : Packet) : Bool := pkt.cmd.isUpgrade

def needsResponse (pkt : Packet) : Bool := pkt.cmd.needsResponse

def isInvalidate (pkt : Packet) : Bool := pkt.cmd.isInvalidate

end Packet

end Gem5.Mem
