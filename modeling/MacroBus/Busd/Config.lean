import MacroBus.Proto.Text

/-!
# Daemon configuration

The configuration as the daemon reads it, its defaults, and the check it must pass
before a daemon starts.
-/

namespace MacroBus

/-- Bounds enforced by the daemon. -/
structure Limits where
  /-- Maximum total body size of a single message, in octets. -/
  maxMessageBytes : ℕ := 2 ^ 20
  /-- Maximum length of a command line, in octets, without its terminator. -/
  maxCommandLineBytes : ℕ := 4096
  /-- Maximum length of a single body line, in octets, without its terminator. -/
  maxBodyLineBytes : ℕ := 65536
  /-- Depth of each subscriber's bounded outbound queue. -/
  queueDepth : ℕ := 1024
  /-- Capacity of the set of recently seen message ids. -/
  seenCapacity : ℕ := 65536
  deriving DecidableEq

/-- A configured peer. -/
structure PeerConfig where
  /-- The peer's expected daemon id. -/
  id : Str
  /-- Where to dial it. -/
  addr : Str
  deriving DecidableEq

/-- Federation settings. -/
structure ClusterConfig where
  /-- Address to accept peer links on, if any. -/
  listen : Option Str := none
  /-- The peers to dial. -/
  peers : List PeerConfig := []
  deriving DecidableEq

/-- A `[tls]` section. What it names is read when a link is set up, not here. -/
structure TlsConfig where
  deriving DecidableEq

/-- Top-level daemon configuration. -/
structure Config where
  /-- This daemon's identifier. -/
  daemonId : Str := "macro-busd".toList
  /-- Bounds on messages, lines and queues. -/
  limits : Limits := {}
  /-- Federation settings. -/
  cluster : ClusterConfig := {}
  /-- TLS material for federation links. -/
  tls : Option TlsConfig := none
  deriving DecidableEq

/-- Validate cross-field invariants. -/
def Config.validate (cfg : Config) : Except Str Unit :=
  if cfg.daemonId.isEmpty then .error "server.daemon_id must not be empty".toList
  else if (!cfg.cluster.peers.isEmpty || cfg.cluster.listen.isSome) && cfg.tls.isNone then
    .error "cluster federation requires a [tls] section (cert/key/ca)".toList
  else if cfg.limits.queueDepth = 0 then .error "limits.queue_depth must be >= 1".toList
  else .ok ()

/-- The default configuration passes its own check. -/
theorem Config.validate_default : Config.validate {} = .ok () := by decide

/-- What a validated configuration promises. -/
theorem Config.validate_eq_ok_iff (cfg : Config) :
    cfg.validate = .ok () ↔ cfg.daemonId ≠ [] ∧
      (cfg.cluster.peers = [] ∧ cfg.cluster.listen = none ∨ cfg.tls.isSome) ∧
      cfg.limits.queueDepth ≠ 0 := by
  unfold Config.validate
  split
  · next h => simp_all
  split
  · next h1 h2 =>
    simp only [Bool.and_eq_true, Bool.or_eq_true, Bool.not_eq_true', List.isEmpty_eq_false_iff,
      Option.isSome_iff_ne_none, Option.isNone_iff_eq_none] at h2
    simp only [reduceCtorEq, false_iff, not_and, h2.2, Option.isSome_none, Bool.false_eq_true,
      or_false]
    rintro _ ⟨hp, hl⟩
    rcases h2.1 with h | h
    · exact absurd hp h
    · exact absurd hl h
  · next h1 h2 =>
    simp only [Bool.and_eq_true, Bool.or_eq_true, Bool.not_eq_true', List.isEmpty_eq_false_iff,
      Option.isSome_iff_ne_none, Option.isNone_iff_eq_none, not_and_or, not_or, ne_eq,
      not_not] at h2
    have hne : cfg.daemonId ≠ [] := by simpa using h1
    split <;> simp_all [Option.isSome_iff_ne_none]

end MacroBus
