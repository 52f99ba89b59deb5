import Mathlib.Data.List.TakeWhile
import SignalSim.Foundations.FormUrlencoded
import SignalSim.Mgen.Client.Uploader

/-!
# Attachments

`web_url` of `mgen-client.rs` puts the size of an attachment and the name of the user into the query
of a URL as they are. `process` of `mgen-web.rs` parses the query as a form. It reads what the
client has written unless the name has a character that means something in a form or a URL.

## Main definitions

* `serve` — the response of the web server to a request for a URL
* `intended` — the response that the client asks for
* `Verbatim` — the names that stand for themselves in a URL

## Main results

* `served_iff` — exactly their users get what they ask for
-/

namespace SignalSim.Mgen

open FormUrlencoded (Ascii Escaped)

variable {U : Type}

/-! ### The server -/

/-- The parameters. Of those with one name the last one is kept. -/
def queryParams (forms : FormParser) (query : Text) : AList fun _ : String => String :=
  (forms.parse query).foldl (fun params p => params.insert p.1 p.2) ∅

/-- The response to a request for a URL, whose query the server gets as it is. -/
def serve (uris : UriParser U) (forms : FormParser) (url : U) (method : Method) :
    Option Response :=
  process ((uris.query url).map (queryParams forms)) method

/-- What the client asks for when it downloads an attachment, or uploads one. -/
def intended (user : String) (size : ℕ) : Method → Response
  | .get => ⟨.ok, List.replicate size 0, some s!"sending,{user},{size}"⟩
  | .put => ⟨.ok, [], some s!"receiving,{user}"⟩

/-- The name has none of the characters that mean something in the query of a URL. -/
structure Verbatim (user : Text) : Prop where
  fragment : '#' ∉ user
  ampersand : '&' ∉ user
  plus : '+' ∉ user
  percent : ¬ Escaped user

/-- The server can make a body of that size. -/
def Method.Allocates (size : ℕ) : Method → Prop
  | get => size ≤ isizeMax
  | put => True

/-! ### The URL -/

section

variable {uris : UriParser U} {forms : FormParser} {target user sender : String} {size : ℕ}
  {method : Method} {t : Text} {k v : String} {url : U}

theorem escaped_mem (h : Escaped t) : '%' ∈ t := by
  obtain ⟨u, hu, -⟩ := h
  exact hu.mem List.mem_cons_self

/-- The query of the URL, when the name ends so. -/
def urlQuery (size : ℕ) (user : Text) : Text :=
  "size".toList ++ '=' :: Text.ofNat size ++ '&' :: ("user".toList ++ '=' :: user)

theorem toList_formatted (target : String) (size : ℕ) (user : String) :
    (formatted target size user).toList = "https://".toList ++ target.toList ++ "/".toList ++
      '?' :: urlQuery size user.toList := by
  have hdigits : (toString size).toList = Text.ofNat size := String.toList_ofList
  have hurl : formatted target size user =
      "https://" ++ target ++ "/?size=" ++ toString size ++ "&user=" ++ user := rfl
  simp only [hurl, String.toList_append, hdigits, urlQuery]
  simp

/-- The query of the URL goes up to the end of the name, or to a fragment in it. -/
theorem query_webUrl (htarget : '?' ∉ target.toList ∧ '#' ∉ target.toList)
    (h : webUrl uris target size user = some url) :
    uris.query url = some (urlQuery size (user.toList.takeWhile (· ≠ '#'))) := by
  have hbefore : ∀ c ∈ "https://".toList ++ target.toList ++ "/".toList, c ≠ '?' ∧ c ≠ '#' := by
    intro c hc
    rcases List.mem_append.mp hc with hc | hc
    · rcases List.mem_append.mp hc with hc | hc
      · have hscheme : "https://".toList.Forall fun c => c ≠ '?' ∧ c ≠ '#' := by decide
        exact List.forall_iff_forall_mem.mp hscheme c hc
      · exact ⟨fun h => htarget.1 (h ▸ hc), fun h => htarget.2 (h ▸ hc)⟩
    · have hslash : "/".toList.Forall fun c => c ≠ '?' ∧ c ≠ '#' := by decide
      exact List.forall_iff_forall_mem.mp hslash c hc
  have hsplit : (formatted target size user).toList =
      "https://".toList ++ target.toList ++ "/".toList ++
        '?' :: (urlQuery size (user.toList.takeWhile (· ≠ '#')) ++
          user.toList.dropWhile (· ≠ '#')) := by
    rw [toList_formatted]
    simp [urlQuery]
  have hdigits : '#' ∉ Text.ofNat size := fun hmem =>
    absurd (Text.isDigit_of_mem_ofNat hmem) (by decide)
  have hname : '#' ∉ user.toList.takeWhile (· ≠ '#') := by
    intro hmem
    simpa using List.mem_takeWhile_imp hmem
  refine uris.query_of_parse _ _ _ _ _ h hsplit (fun hmem => (hbefore _ hmem).1 rfl)
    (fun hmem => (hbefore _ hmem).2 rfl) ?_ ?_
  · simp only [urlQuery, List.mem_append, List.mem_cons, hdigits, hname]
    decide
  · intro c hc
    have := List.head?_dropWhile_not (· ≠ '#') user.toList
    simp_all

/-! ### The parameters -/

theorem mem_of_lookup_queryParams (h : (queryParams forms t).lookup k = some v) :
    (k, v) ∈ forms.parse t := by
  rw [queryParams, Entry.lookup_foldl_insert, AList.lookup_empty, Option.or_none,
    Option.map_eq_some_iff] at h
  obtain ⟨p, hp, rfl⟩ := h
  obtain ⟨hmem, hname⟩ := List.mem_filter.mp (List.mem_of_getLast? hp)
  obtain rfl := of_decide_eq_true hname
  exact hmem

theorem not_mem_ofNat {c : Char} (hc : ¬ c.isDigit) : c ∉ Text.ofNat size := fun hmem =>
  hc (Text.isDigit_of_mem_ofNat hmem)

theorem ascii_ofNat : Ascii (Text.ofNat size) := by
  intro c hc
  have hc := Text.isDigit_of_mem_ofNat hc
  simp only [Char.isDigit, Bool.and_eq_true, decide_eq_true_eq] at hc
  exact Nat.lt_of_le_of_lt hc.2 (by decide)

/-- The pair of the size comes first. -/
theorem parse_urlQuery (size : ℕ) (user : Text) : forms.parse (urlQuery size user) =
    ("size", toString size) :: forms.parse ("user".toList ++ '=' :: user) := by
  have hdigits : Text.ofNat size = (toString size).toList := String.toList_ofList.symm
  have hascii : Ascii (toString size).toList := hdigits ▸ ascii_ofNat
  have hname : forms.decode "size".toList = "size".toList :=
    (FormParser.decode_eq_self_iff (by decide)).mpr
      ⟨by decide, fun hescaped => absurd (escaped_mem hescaped) (by decide)⟩
  have hsize : forms.decode (Text.ofNat size) = Text.ofNat size :=
    (FormParser.decode_eq_self_iff ascii_ofNat).mpr
      ⟨not_mem_ofNat (by decide), fun hescaped => not_mem_ofNat (by decide) (escaped_mem hescaped)⟩
  rw [urlQuery, forms.parse_append,
    forms.parse_pair _ _ (by decide) (by decide) (not_mem_ofNat (by decide)), hname, hsize,
    (forms.lossy_ascii _ "size" (by decide)).mpr rfl,
    (forms.lossy_ascii _ (toString size) hascii).mpr hdigits]
  rfl

/-- The two pairs in the query of a URL, if the name stands for itself. -/
theorem lookup_queryParams (size : ℕ) (huser : Ascii user.toList) (h : Verbatim user.toList) :
    let params := queryParams forms (urlQuery size user.toList)
    params.lookup "user" = some user ∧ params.lookup "size" = some (toString size) := by
  have hkey : forms.decode "user".toList = "user".toList :=
    (FormParser.decode_eq_self_iff (by decide)).mpr
      ⟨by decide, fun hescaped => absurd (escaped_mem hescaped) (by decide)⟩
  have hname : forms.decode user.toList = user.toList :=
    (FormParser.decode_eq_self_iff huser).mpr ⟨h.plus, h.percent⟩
  have hparse : forms.parse (urlQuery size user.toList) =
      [("size", toString size), ("user", user)] := by
    rw [parse_urlQuery, forms.parse_pair _ _ (by decide) (by decide) h.ampersand, hkey, hname,
      (forms.lossy_ascii _ "user" (by decide)).mpr rfl, (forms.lossy_ascii _ user huser).mpr rfl]
  simp only [queryParams, hparse, List.foldl_cons, List.foldl_nil]
  refine ⟨AList.lookup_insert _, ?_⟩
  rw [AList.lookup_insert_ne (by decide), AList.lookup_insert]

/-- If a URL gets the response that is meant for the user, the server has read the name. -/
theorem lookup_user_of_process {params : AList fun _ : String => String}
    (h : process (some params) method = some (intended user size method)) :
    params.lookup "user" = some user ∧ method.Allocates size := by
  cases hlookup : params.lookup "user" with
  | none =>
    rw [process] at h
    simp only [hlookup] at h
    cases method <;> cases congrArg Response.log (Option.some_inj.mp h)
  | some sender =>
    simp only [process, hlookup] at h
    cases method with
    | put =>
      have hlog : "receiving," ++ sender = "receiving," ++ user :=
        Option.some_inj.mp (congrArg Response.log (Option.some_inj.mp h))
      exact ⟨congrArg some ((String.append_right_inj _).mp hlog), trivial⟩
    | get =>
      cases hsize : (params.lookup "size").elim (some 0) usizeFromStr with
      | none =>
        simp only [hsize] at h
        cases congrArg Response.log (Option.some_inj.mp h)
      | some size' =>
        simp only [hsize] at h
        obtain ⟨hmax, h⟩ := Option.ite_none_right_eq_some.mp h
        have h := Option.some_inj.mp h
        -- the sizes are the lengths of the bodies
        have hbody := congrArg List.length (congrArg Response.body h)
        simp only [intended, List.length_replicate] at hbody
        subst hbody
        have hlog : "sending," ++ sender ++ "," ++ toString size' =
            "sending," ++ user ++ "," ++ toString size' :=
          Option.some_inj.mp (congrArg Response.log h)
        have hsender := (String.append_left_inj _).mp ((String.append_left_inj _).mp hlog)
        exact ⟨congrArg some ((String.append_right_inj _).mp hsender), hmax⟩

theorem process_eq_intended {params : AList fun _ : String => String}
    (huser : params.lookup "user" = some user)
    (hsizes : params.lookup "size" = some (toString size)) (hsize : size < UInt64.size)
    (hmax : method.Allocates size) :
    process (some params) method = some (intended user size method) := by
  cases method with
  | get =>
    have hle : size ≤ isizeMax := hmax
    rw [process_get huser hsizes hsize, if_pos hle]
    rfl
  | put => exact process_put huser

/-- A name that the server reads off the query stands for itself. -/
theorem verbatim_of_lookup (huser : Ascii user.toList)
    (h : (queryParams forms (urlQuery size (user.toList.takeWhile (· ≠ '#')))).lookup "user" =
      some user) : Verbatim user.toList := by
  have hmem := mem_of_lookup_queryParams h
  rw [parse_urlQuery, List.mem_cons] at hmem
  -- the pair is not that of the size, so it is in what comes after the ampersand
  have hp := hmem.resolve_left fun heq => absurd (Prod.mk.inj heq).1 (by decide)
  have hwhole : user.toList.takeWhile (· ≠ '#') = user.toList := by
    obtain ⟨v, hv, hsub, -⟩ := FormParser.exists_of_mem_parse_pair (by decide) hp
    have hascii : Ascii v := fun c hc =>
      huser c ((List.takeWhile_sublist _).subset (hsub.subset hc))
    apply (List.takeWhile_prefix (· ≠ '#')).eq_of_length_le
    exact (FormParser.length_le_of_lossy huser hascii hv).trans hsub.length_le
  rw [hwhole] at hp
  obtain ⟨hamp, hplus, hpercent⟩ := (FormParser.mem_parse_iff (by decide) huser).mp ⟨_, hp⟩
  refine ⟨fun hmem => ?_, hamp, hplus, hpercent⟩
  exact absurd rfl (of_decide_eq_true (List.takeWhile_eq_self_iff.mp hwhole _ hmem))

/-- **Attachments.** A download or an upload of an attachment gets the response that is meant for
the user exactly if the URL parses, the name has none of the characters that mean something in the
query and the server can make the body. -/
theorem served_iff (uris : UriParser U) (forms : FormParser)
    (htarget : '?' ∉ target.toList ∧ '#' ∉ target.toList) (huser : Ascii user.toList)
    (hsize : size < UInt64.size) :
    ((webUrl uris target size user).bind fun url => serve uris forms url method) =
        some (intended user size method) ↔
      (webUrl uris target size user).isSome ∧ Verbatim user.toList ∧ method.Allocates size := by
  cases hurl : webUrl uris target size user with
  | none => simp
  | some url =>
    rw [Option.bind_some, serve, query_webUrl htarget hurl, Option.map_some]
    constructor
    · intro h
      obtain ⟨hlookup, hmax⟩ := lookup_user_of_process h
      exact ⟨rfl, verbatim_of_lookup huser hlookup, hmax⟩
    · rintro ⟨-, h, hmax⟩
      have hwhole : user.toList.takeWhile (· ≠ '#') = user.toList :=
        List.takeWhile_eq_self_iff.mpr fun c hc => decide_eq_true fun heq => h.fragment (heq ▸ hc)
      rw [hwhole]
      obtain ⟨hlookup, hsizes⟩ := lookup_queryParams size huser h
      exact process_eq_intended hlookup hsizes hsize hmax

end

/-- The server logs the name of a user if it is a word, not if there is a plus sign in it. With a
space in it there is no URL. -/
theorem served_iff_names :
    let request user := (webUrl plainUris "web0:6398" 3 user).bind fun url =>
      serve plainUris FormUrlencoded.standard url .get
    request "user1" = some (intended "user1" 3 .get) ∧
      request "user+1" ≠ some (intended "user+1" 3 .get) ∧
      (webUrl plainUris "web0:6398" 3 "user+1").isSome ∧
      webUrl plainUris "web0:6398" 3 "user 1" = none := by
  have hplain : Verbatim "user1".toList :=
    ⟨by decide, by decide, by decide, fun h => absurd (escaped_mem h) (by decide)⟩
  refine ⟨?_, fun h => ?_, by rfl, by rfl⟩
  · exact (served_iff _ _ (by decide) (by decide) (by decide)).mpr
      ⟨by rfl, hplain, Nat.le_of_ble_eq_true rfl⟩
  · have hverbatim := (served_iff _ _ (by decide) (by decide) (by decide)).mp h
    exact absurd hverbatim.2.1.plus (by decide)

end SignalSim.Mgen
