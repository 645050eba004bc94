/-
GoRestApi.Auth.Jwt — the token issuers of `internal/auth/jwt.go`.

`JwtLib` stands for `golang-jwt`: `signedString` makes a token of claims, and
`verify` gives the claims of a token whose algorithm is HS256 and whose
signature was made with the secret. `jwtParse` adds the one claim the library
validates here, `exp`. What is assumed of the library is `JwtLib.Correct`.

`MapClaims` has one field for each claim the program writes or reads, with
the value that the type assertion of the code gives; `exp` and `iat` are
whole seconds.

A `TokenIssuer` carries what `NewTokenIssuer` has checked. Its audience is a
function of its kind, as the constructor sets it.
-/
import GoRestApi.Go.Strconv
import GoRestApi.Go.Time
import Mathlib.Data.List.Nodup

namespace GoRestApi.Auth

open Go

/-! ## The library -/

structure MapClaims where
  sub : Option String
  iat : Option Int
  exp : Option Int
  aud : Option String
  jti : Option String
  iss : Option String
  deriving DecidableEq, Repr

structure JwtLib where
  signedString : (secret : String) → MapClaims → Option String
  verify : (secret : String) → (raw : String) → Option MapClaims

/-- A signed token is a text, and verifies to the claims it was made of. -/
structure JwtLib.Correct (lib : JwtLib) : Prop where
  verify_signed : ∀ secret c raw, lib.signedString secret c = some raw →
    lib.verify secret raw = some c
  signed_ne_empty : ∀ secret c raw, lib.signedString secret c = some raw → raw ≠ ""

/-- `ErrTokenInvalid` and `ErrTokenExpired`. -/
inductive TokenError where
  | invalid
  | expired
  deriving DecidableEq, Repr

def TokenError.message : TokenError → String
  | .invalid => "token is invalid"
  | .expired => "token is expired"

/-- `jwt.Parse` with the key function of the issuers. -/
def jwtParse (lib : JwtLib) (secret : String) (now : Time) (raw : String) :
    Except TokenError MapClaims :=
  match lib.verify secret raw with
  | none => .error .invalid
  | some c =>
    match c.exp with
    | none => .ok c
    | some exp => if now < Time.ofUnix exp then .ok c else .error .expired

/-! ## Issuers -/

inductive TokenKind where
  | access
  | refresh
  deriving DecidableEq, Repr

/-- `AudienceAccess` and `AudienceRefresh`. -/
def TokenKind.audience : TokenKind → String
  | .access => "go-lang:access"
  | .refresh => "go-lang:refresh"

structure TokenIssuer where
  secret : String
  ttl : Duration
  issuer : String
  kind : TokenKind
  secret_length : 32 ≤ secret.utf8ByteSize
  ttl_pos : 0 < ttl

/-- `Claims`. -/
structure Claims where
  subject : Int64
  issuer : String
  kind : TokenKind
  deriving DecidableEq, Repr

namespace TokenIssuer

/-- `NewTokenIssuer`. -/
def new (secret : String) (ttl : Duration) (issuer : String) (kind : TokenKind) :
    Except String TokenIssuer :=
  if hs : secret.utf8ByteSize < 32 then .error "jwt secret must be at least 32 bytes"
  else if ht : ttl ≤ 0 then .error "token ttl must be positive"
  else .ok ⟨secret, ttl, issuer, kind, Nat.not_lt.mp hs, Int.not_le.mp ht⟩

def aud (i : TokenIssuer) : String := i.kind.audience

/-- The claims `Issue` signs. -/
def claims (i : TokenIssuer) (now : Time) (jti : String) (subject : Int64) : MapClaims where
  sub := some (Strconv.formatInt subject)
  iat := some (Time.unix now)
  exp := some (Time.unix (now + i.ttl))
  aud := some i.aud
  jti := some jti
  iss := if i.issuer ≠ "" then some i.issuer else none

/-- `Issue`, given what `time.Now()` and `newJTI()` return. -/
def issue (lib : JwtLib) (i : TokenIssuer) (now : Time) (jti : String) (subject : Int64) :
    Option (String × Time) :=
  (lib.signedString i.secret (i.claims now jti subject)).map fun signed => (signed, now + i.ttl)

/-- `Parse`. -/
def parse (lib : JwtLib) (i : TokenIssuer) (now : Time) (raw : String) :
    Except TokenError Claims :=
  match jwtParse lib i.secret now raw with
  | .error err => .error err
  | .ok c =>
    if c.aud.getD "" ≠ i.aud then .error .invalid
    else
      match c.sub with
      | none => .error .invalid
      | some subRaw =>
        match Strconv.parseInt subRaw with
        | none => .error .invalid
        | some sub => .ok ⟨sub, c.iss.getD "", i.kind⟩

/-- `RawClaims`. -/
def rawClaims (lib : JwtLib) (i : TokenIssuer) (now : Time) (raw : String) :
    Except TokenError (MapClaims × String) :=
  match jwtParse lib i.secret now raw with
  | .error _ => .error .invalid
  | .ok c => if c.aud.getD "" ≠ i.aud then .error .invalid else .ok (c, c.jti.getD "")

end TokenIssuer

/-! ## What is accepted -/

/-- The library accepts a token that verifies and has not expired. -/
theorem jwtParse_eq_ok_iff {lib : JwtLib} {secret : String} {now : Time} {raw : String}
    {c : MapClaims} : jwtParse lib secret now raw = .ok c ↔
      lib.verify secret raw = some c ∧ ∀ exp, c.exp = some exp → now < Time.ofUnix exp := by
  unfold jwtParse
  cases hv : lib.verify secret raw with
  | none => simp
  | some c' =>
    cases he : c'.exp with
    | none =>
      simp only [he, Except.ok.injEq, Option.some.injEq]
      constructor
      · rintro rfl
        exact ⟨rfl, by simp [he]⟩
      · exact fun h => h.1
    | some exp =>
      by_cases hnow : now < Time.ofUnix exp
      · simp only [he, hnow, ↓reduceIte, Except.ok.injEq, Option.some.injEq]
        constructor
        · rintro rfl
          exact ⟨rfl, by simpa [he] using hnow⟩
        · exact fun h => h.1
      · simp only [he, hnow, ↓reduceIte, reduceCtorEq, Option.some.injEq, false_iff]
        rintro ⟨rfl, h⟩
        exact hnow (h exp he)

namespace TokenIssuer

variable {lib : JwtLib} {i : TokenIssuer} {now : Time} {raw : String}

theorem rawClaims_eq_ok_iff {c : MapClaims} {jti : String} :
    i.rawClaims lib now raw = .ok (c, jti) ↔
      lib.verify i.secret raw = some c ∧ (∀ exp, c.exp = some exp → now < Time.ofUnix exp) ∧
      c.aud.getD "" = i.aud ∧ c.jti.getD "" = jti := by
  unfold rawClaims
  cases hp : jwtParse lib i.secret now raw with
  | error err =>
    have hno : ¬ jwtParse lib i.secret now raw = .ok c := by simp [hp]
    rw [jwtParse_eq_ok_iff] at hno
    simp only [reduceCtorEq, false_iff]
    exact fun h => hno ⟨h.1, h.2.1⟩
  | ok c' =>
    obtain ⟨hv, hexp⟩ := jwtParse_eq_ok_iff.mp hp
    by_cases haud : c'.aud.getD "" = i.aud
    · simp only [haud, ne_eq, not_true_eq_false, ↓reduceIte, Except.ok.injEq, Prod.mk.injEq, hv,
        Option.some.injEq]
      constructor
      · rintro ⟨rfl, rfl⟩
        exact ⟨rfl, hexp, haud, rfl⟩
      · rintro ⟨rfl, _, _, rfl⟩
        exact ⟨rfl, rfl⟩
    · simp only [haud, ne_eq, not_false_eq_true, ↓reduceIte, reduceCtorEq, false_iff]
      rintro ⟨h, _, haud', _⟩
      rw [hv] at h
      cases h
      exact haud haud'

theorem parse_eq_ok_iff {cl : Claims} :
    i.parse lib now raw = .ok cl ↔
      ∃ c, lib.verify i.secret raw = some c ∧ (∀ exp, c.exp = some exp → now < Time.ofUnix exp) ∧
        c.aud.getD "" = i.aud ∧ c.sub.bind Strconv.parseInt = some cl.subject ∧
        cl.issuer = c.iss.getD "" ∧ cl.kind = i.kind := by
  unfold parse
  cases hp : jwtParse lib i.secret now raw with
  | error err =>
    simp only [reduceCtorEq, false_iff]
    rintro ⟨c, hv, hexp, _⟩
    rw [jwtParse_eq_ok_iff.mpr ⟨hv, hexp⟩] at hp
    cases hp
  | ok c =>
    obtain ⟨hv, hexp⟩ := jwtParse_eq_ok_iff.mp hp
    by_cases haud : c.aud.getD "" = i.aud
    · simp only [haud, ne_eq, not_true_eq_false, ↓reduceIte]
      constructor
      · intro h
        refine ⟨c, hv, hexp, haud, ?_⟩
        cases hs : c.sub with
        | none => simp [hs] at h
        | some sub =>
          simp only [hs] at h
          cases hi : Strconv.parseInt sub with
          | none => simp [hi] at h
          | some n =>
            simp only [hi, Except.ok.injEq] at h
            subst h
            exact ⟨by simp [hi], rfl, rfl⟩
      · rintro ⟨c', hv', _, _, hsub, hiss, hkind⟩
        rw [hv] at hv'
        cases hv'
        obtain ⟨sub, hs, hi⟩ := Option.bind_eq_some_iff.mp hsub
        obtain ⟨subject, issuer, kind⟩ := cl
        simp only at hi hiss hkind
        simp [hs, hi, hiss, hkind]
    · simp only [haud, ne_eq, not_false_eq_true, ↓reduceIte, reduceCtorEq, false_iff]
      rintro ⟨c', hv', _, haud', _⟩
      rw [hv] at hv'
      cases hv'
      exact haud haud'

end TokenIssuer

/-! ## A library that looks its tokens up -/

namespace JwtLib

/-- The tokens of one secret, listed with their claims. -/
def ofTable (secret : String) (table : List (MapClaims × String)) : JwtLib where
  signedString s c := if s = secret then (table.find? fun e => e.1 = c).map Prod.snd else none
  verify s raw := if s = secret then (table.find? fun e => e.2 = raw).map Prod.fst else none

theorem mem_of_verify_ofTable {secret s raw : String} {table : List (MapClaims × String)}
    {c : MapClaims} (h : (ofTable secret table).verify s raw = some c) : (c, raw) ∈ table := by
  simp only [ofTable] at h
  split at h
  · obtain ⟨⟨c', raw'⟩, hfind, rfl⟩ := Option.map_eq_some_iff.mp h
    have hraw : raw' = raw := by simpa using List.find?_some hfind
    exact hraw ▸ List.mem_of_find?_eq_some hfind
  · cases h

/-- A table in which every token stands once is a correct library. -/
theorem correct_ofTable {secret : String} {table : List (MapClaims × String)}
    (hnodup : (table.map Prod.snd).Nodup) (hne : "" ∉ table.map Prod.snd) :
    (ofTable secret table).Correct := by
  have hmem : ∀ s c raw, (ofTable secret table).signedString s c = some raw →
      s = secret ∧ (c, raw) ∈ table := by
    intro s c raw h
    simp only [ofTable] at h
    split at h
    · obtain ⟨⟨c', raw'⟩, hfind, rfl⟩ := Option.map_eq_some_iff.mp h
      have hc : c' = c := by simpa using List.find?_some hfind
      subst hc
      exact ⟨‹_›, List.mem_of_find?_eq_some hfind⟩
    · cases h
  refine ⟨fun s c raw h => ?_, fun s c raw h => ?_⟩
  · obtain ⟨rfl, hin⟩ := hmem s c raw h
    simp only [ofTable, ↓reduceIte]
    cases hfind : table.find? (fun e => e.2 = raw) with
    | none => simpa using List.find?_eq_none.mp hfind _ hin
    | some e =>
      have hraw : e.2 = raw := by simpa using List.find?_some hfind
      have he : e = (c, raw) :=
        List.inj_on_of_nodup_map hnodup (List.mem_of_find?_eq_some hfind) hin hraw
      simp [he]
  · rintro rfl
    exact hne (List.mem_map.mpr ⟨_, (hmem s c "" h).2, rfl⟩)

end JwtLib

end GoRestApi.Auth
