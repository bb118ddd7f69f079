import Shorty.Lib.Keyed
import Shorty.Api.Dto

/-!
# Shorty.Cache

The link cache (`crates/storage/src/cache.rs`): a Redis connection that may be
absent, and whose commands may fail without the caller noticing more than a miss.
A value is stored as JSON and read back as the same response, so the entries are
kept as responses.

Which commands fail is not the cache's choice; `Faults` says it for every
command by its number.  A `SET` or `DEL` that fails is one the server does not
execute, then or later: the client gives up on a command after `op_timeout`, but
what it has sent may still be executed, and a command that is executed after it
was given up is not a failed one.
-/

namespace Shorty

/-- The key a link is cached under. -/
def linkKey (code : String) : String := "shorty:v1:link:" ++ code

theorem linkKey_injective {code code' : String} (h : linkKey code = linkKey code') :
    code = code' := (String.append_right_inj "shorty:v1:link:").mp h

/-- Which commands fail, by the number of commands before them: a `GET` is not answered
in time, a `SET` or a `DEL` is never executed. -/
structure Faults where
  missGet : Nat → Bool
  dropSet : Nat → Bool
  failDel : Nat → Bool

/-- A Redis server as one client sees it. -/
structure Redis where
  entries : Table String LinkResponse
  commands : Nat
  faults : Faults

/-- The cache client: a connection, if there is one. -/
structure Cache where
  conn : Option Redis

namespace Cache

def disabled : Cache := ⟨none⟩

/-- A connection to an empty server. -/
def fromManager (faults : Faults) : Cache := ⟨some ⟨Keyed.empty, 0, faults⟩⟩

/-- The entry under a key, whether or not a `GET` would succeed. -/
def entry (c : Cache) (key : String) : Option LinkResponse :=
  c.conn.bind (fun r => r.entries.get? key)

def get (c : Cache) (key : String) : Option LinkResponse × Cache :=
  match c.conn with
  | none => (none, c)
  | some r =>
      (if r.faults.missGet r.commands then none else r.entries.get? key,
        ⟨some { r with commands := r.commands + 1 }⟩)

def set (c : Cache) (key : String) (value : LinkResponse) : Cache :=
  match c.conn with
  | none => c
  | some r =>
      ⟨some { r with
        entries := if r.faults.dropSet r.commands then r.entries else r.entries.set key value
        commands := r.commands + 1 }⟩

def invalidate (c : Cache) (key : String) : Cache :=
  match c.conn with
  | none => c
  | some r =>
      ⟨some { r with
        entries := if r.faults.failDel r.commands then r.entries else r.entries.erase key
        commands := r.commands + 1 }⟩

/-- An entry runs out of time. -/
def expire (c : Cache) (key : String) : Cache :=
  match c.conn with
  | none => c
  | some r => ⟨some { r with entries := r.entries.erase key }⟩

/-- Which commands of the connection fail. -/
def faults (c : Cache) : Option Faults := c.conn.map Redis.faults

/-- Every `DEL` succeeds. -/
def Deletes (c : Cache) : Prop := ∀ f ∈ c.faults, ∀ n, f.failDel n = false

/-! ## what the commands do to the entries -/

variable {c : Cache} {key key' : String} {value : LinkResponse}

/-- A hit is the entry under the key. -/
theorem entry_of_get (h : (c.get key).1 = some value) : c.entry key = some value := by
  rw [get] at h
  rw [entry]
  cases hc : c.conn with
  | none =>
      rw [hc] at h
      cases h
  | some r =>
      rw [hc] at h
      simp only at h
      split at h
      · cases h
      · exact h

@[simp] theorem entry_get (c : Cache) (key key' : String) :
    (c.get key).2.entry key' = c.entry key' := by
  rw [get]
  cases hc : c.conn <;> simp [entry, hc]

theorem entry_set (h : (c.set key value).entry key' = some v) :
    (key' = key ∧ v = value) ∨ c.entry key' = some v := by
  rw [set] at h
  cases hc : c.conn with
  | none =>
      rw [hc] at h
      exact Or.inr h
  | some r =>
      rw [hc] at h
      simp only [entry, Option.bind_some] at h
      rw [entry, hc, Option.bind_some]
      split at h
      · exact Or.inr h
      · rw [Table.get?_set] at h
        split at h
        · cases h
          exact Or.inl ⟨‹_›, rfl⟩
        · exact Or.inr h

theorem entry_invalidate_self (h : c.Deletes) : (c.invalidate key).entry key = none := by
  rw [invalidate]
  cases hc : c.conn with
  | none => simp [entry, hc]
  | some r =>
      have hdel : r.faults.failDel r.commands = false := h r.faults (by simp [faults, hc]) _
      simp [entry, hdel, Table.get?_erase]

/-- Invalidating leaves no entry that was not there. -/
theorem entry_of_entry_invalidate (h : (c.invalidate key).entry key' = some value) :
    c.entry key' = some value := by
  rw [invalidate] at h
  cases hc : c.conn with
  | none =>
      rw [hc] at h
      exact h
  | some r =>
      rw [hc] at h
      simp only [entry, Option.bind_some] at h
      rw [entry, hc, Option.bind_some]
      split at h
      · exact h
      · rw [Table.get?_erase] at h
        split at h
        · cases h
        · exact h

theorem entry_of_entry_expire (h : (c.expire key).entry key' = some value) :
    c.entry key' = some value := by
  rw [expire] at h
  cases hc : c.conn with
  | none =>
      rw [hc] at h
      exact h
  | some r =>
      rw [hc] at h
      simp only [entry, Option.bind_some, Table.get?_erase] at h
      rw [entry, hc, Option.bind_some]
      split at h
      · cases h
      · exact h

/-! ## no command changes which commands fail -/

@[simp] theorem faults_get (c : Cache) (key : String) : (c.get key).2.faults = c.faults := by
  rw [get]
  cases hc : c.conn <;> simp [faults, hc]

@[simp] theorem faults_set (c : Cache) (key : String) (value : LinkResponse) :
    (c.set key value).faults = c.faults := by
  rw [set]
  cases hc : c.conn <;> simp [faults, hc]

@[simp] theorem faults_invalidate (c : Cache) (key : String) :
    (c.invalidate key).faults = c.faults := by
  rw [invalidate]
  cases hc : c.conn <;> simp [faults, hc]

@[simp] theorem faults_expire (c : Cache) (key : String) : (c.expire key).faults = c.faults := by
  rw [expire]
  cases hc : c.conn <;> simp [faults, hc]

end Cache

end Shorty
