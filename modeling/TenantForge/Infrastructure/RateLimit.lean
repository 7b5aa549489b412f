import Mathlib.Data.Rat.Floor
import TenantForge.App
/-!
# The rate limiter (`app/infrastructure/rate_limit.py`)

Clocks are rational numbers of seconds. The counters of Redis are a partial function of their keys; an
expired counter counts as removed.
-/

namespace TenantForge

structure RateLimitResult where
  allowed : Bool
  limit : Int
  remaining : Int
  retryAfter : Int
  deriving DecidableEq

/-- The value of a counter key, and the Redis time at which `EXPIRE` removes it. -/
structure Counter where
  count : Nat
  expiresAt : Rat

abbrev Counters := String → Option Counter

/-- A call of `check`: its arguments, the time of the server and the time of Redis. -/
structure RateLimitCheck where
  identifier : String
  limit : Int
  windowSeconds : Int
  now : Rat
  redisTime : Rat
  deriving DecidableEq

namespace FixedWindowRateLimiter

/-- `_INCREMENT_WINDOW`. `INCR` makes a missing key 1, and only then the script sets its lifetime. -/
def incrementWindow (counters : Counters) (key : String) (seconds : Int) (redisTime : Rat) :
    Nat × Counters :=
  match (counters key).filter fun counter => redisTime < counter.expiresAt with
  | none => (1, Function.update counters key (some ⟨1, redisTime + seconds⟩))
  | some counter =>
    (counter.count + 1, Function.update counters key (some { counter with count := counter.count + 1 }))

def window (now : Rat) (windowSeconds : Int) : Int := ⌊now / windowSeconds⌋

def redisKey (keyPrefix identifier : String) (window : Int) : String :=
  keyPrefix ++ ":" ++ identifier ++ ":" ++ toString window

def invalidLimit : Exn := .valueError "limit and window_seconds must be positive"

def check (keyPrefix : String) (call : RateLimitCheck) (counters : Counters) :
    Except Exn RateLimitResult × Counters :=
  if call.limit < 1 ∨ call.windowSeconds < 1 then (.error invalidLimit, counters)
  else
    let window := window call.now call.windowSeconds
    let answer := incrementWindow counters (redisKey keyPrefix call.identifier window)
      (call.windowSeconds + 1) call.redisTime
    (.ok {
      allowed := (answer.1 : Int) ≤ call.limit
      limit := call.limit
      remaining := max 0 (call.limit - answer.1)
      retryAfter := max 1 ⌈((window + 1 : Int) * call.windowSeconds : Rat) - call.now⌉ }, answer.2)

/-- `enforce`: a refused call is a 429. -/
def enforce (keyPrefix : String) (call : RateLimitCheck) (counters : Counters) :
    Except Exn RateLimitResult × Counters :=
  let answer := check keyPrefix call counters
  (answer.1.bind fun result =>
    if result.allowed then .ok result
    else .error (.app ⟨429, "rate_limit_exceeded", "Too many requests",
      [("Retry-After", toString result.retryAfter)]⟩), answer.2)

/-- The counters after these checks, executed one after another. -/
def execute (keyPrefix : String) (counters : Counters) (calls : List RateLimitCheck) : Counters :=
  calls.foldl (fun counters call => (check keyPrefix call counters).2) counters

/-- What a check returns after these checks on a Redis that had no counters. -/
def result (keyPrefix : String) (before : List RateLimitCheck) (call : RateLimitCheck) :
    Except Exn RateLimitResult :=
  (check keyPrefix call (execute keyPrefix (fun _ => none) before)).1

/-- The check was let pass. -/
def passed : Except Exn RateLimitResult → Bool
  | .ok result => result.allowed
  | .error _ => false

/-- The checks in the order of their execution, each with whether it was let pass. -/
def outcomes (keyPrefix : String) (counters : Counters) :
    List RateLimitCheck → List (RateLimitCheck × Bool)
  | [] => []
  | call :: calls =>
    (call, passed (check keyPrefix call counters).1) ::
      outcomes keyPrefix (check keyPrefix call counters).2 calls

end FixedWindowRateLimiter

end TenantForge
