import ZincioHttp.H3.Frame

/-! The settings of a connection: what the peer announces and what this endpoint
does. -/

namespace ZincioHttp.H3

def settingsQpackMaxTableCapacity : ℕ := 0x1
def settingsMaxFieldSectionSize : ℕ := 0x6
def settingsQpackBlockedStreams : ℕ := 0x7
def settingsEnableConnectProtocol : ℕ := 0x8

/-- The peer's settings; what it did not send has its default. -/
structure PeerSettings where
  qpackMaxTableCapacity : ℕ := 0
  maxFieldSectionSize : Option ℕ := none
  qpackBlockedStreams : ℕ := 0
  enableConnectProtocol : Bool := false
  deriving DecidableEq, Repr

/-- One parameter; unknown identifiers are ignored. -/
def PeerSettings.applyOne (p : PeerSettings) (setting : ℕ × ℕ) : PeerSettings :=
  if setting.1 = settingsQpackMaxTableCapacity then { p with qpackMaxTableCapacity := setting.2 }
  else if setting.1 = settingsMaxFieldSectionSize then
    { p with maxFieldSectionSize := some setting.2 }
  else if setting.1 = settingsQpackBlockedStreams then { p with qpackBlockedStreams := setting.2 }
  else if setting.1 = settingsEnableConnectProtocol then
    { p with enableConnectProtocol := decide (setting.2 ≠ 0) }
  else p

def PeerSettings.apply (p : PeerSettings) (settings : Settings) : PeerSettings :=
  settings.entries.foldl applyOne p

structure LocalSettings where
  qpackMaxTableCapacity : ℕ := 0
  qpackBlockedStreams : ℕ := 0
  maxFieldSectionSize : Option ℕ := some 65536
  enableConnectProtocol : Bool := false
  deriving DecidableEq, Repr

/-- The SETTINGS frame this endpoint sends, with one reserved identifier. -/
def LocalSettings.toFrame (s : LocalSettings) : Settings :=
  ⟨[(settingsQpackMaxTableCapacity, s.qpackMaxTableCapacity),
      (settingsQpackBlockedStreams, s.qpackBlockedStreams)] ++
    (s.maxFieldSectionSize.map (settingsMaxFieldSectionSize, ·)).toList ++
    (if s.enableConnectProtocol then [(settingsEnableConnectProtocol, 1)] else []) ++ [(0x21, 0)]⟩

end ZincioHttp.H3
