/-!
# Settings of an engine
-/

namespace HeapStore

structure Settings where
  /-- The most pages the engine caches. -/
  poolPages : Nat := 50
  /-- How long a call waits for a lock, in milliseconds, before its transaction is aborted. -/
  lockTimeoutMs : Nat := 1000
deriving DecidableEq

namespace Settings

def withPoolPages (s : Settings) (pages : Nat) : Settings := { s with poolPages := pages }

def withLockTimeoutMs (s : Settings) (ms : Nat) : Settings := { s with lockTimeoutMs := ms }

end Settings

end HeapStore
