import Mathlib.Data.List.Chain
import SignalSim.Foundations.Entry
import SignalSim.Foundations.Fifo
import SignalSim.Foundations.Text
import SignalSim.Foundations.Transition
import SignalSim.Mgen.Wire.Message

/-!
# Uploads of attachments

`worker` of the `uploader` of `mgen-client.rs` takes the sizes of attachments from its channel and
makes a PUT request for each, whose URL has the size. While a request fails it waits and makes
another, but that one is a GET request. The web server answers a GET with as many bytes as the URL
says, so the client that tries again to upload an attachment downloads it. A URL that does not
parse makes the worker panic.

## Main definitions

* `UriParser` — the parser of URLs
* `Uploader` — the worker, with its channel and the requests it has made
* `Uploader.UploadsOnce` — the requests that succeed are one PUT for each size, and a failed request
  is repeated
* `process` — the web server

## Main results

* `Uploader.uploadsOnce_iff` — a run keeps that exactly if it never tries again and its URLs parse
* `Uploader.downloads_of_retry` — a run that does
* `process_get`, `process_put` — what the server makes of the two requests
-/

namespace SignalSim.Mgen

inductive Method
  | get
  | put
  deriving DecidableEq, Repr

/-- A parser of URIs, of type `U`. -/
structure UriParser (U : Type) where
  parse : String → Option U
  query : U → Option Text
  display : U → String
  /-- The query begins after the first question mark and goes up to a fragment. -/
  query_of_parse (s : String) (uri : U) (before query' fragment : Text) : parse s = some uri →
    s.toList = before ++ '?' :: (query' ++ fragment) → '?' ∉ before → '#' ∉ before →
    '#' ∉ query' → (∀ c ∈ fragment.head?, c = '#') → query uri = some query'

structure Request (U : Type) where
  method : Method
  url : U
  deriving DecidableEq, Repr

variable {U : Type}

/-- What `web_url` parses. -/
def formatted (target : String) (size : ℕ) (user : String) : String :=
  s!"https://{target}/?size={size}&user={user}"

/-- The URL of an attachment. The function panics if its arguments do not give one. -/
def webUrl (uris : UriParser U) (target : String) (size : ℕ) (user : String) : Option U :=
  uris.parse (formatted target size user)

/-- A character that may stand in a query. -/
def QueryChar (c : Char) : Bool :=
  c == '!' || (decide ('$' ≤ c) && decide (c ≤ ';')) || c == '=' ||
    (decide ('?' ≤ c) && decide (c ≤ '~'))

/-- The parser that takes a text whose characters may all stand in a query, up to a fragment. -/
def plainUris : UriParser Text where
  parse s :=
    let t := s.toList.takeWhile (· ≠ '#')
    if t.all QueryChar then some t else none
  query t :=
    match t.dropWhile (· ≠ '?') with
    | [] => none
    | _ :: query => some query
  display := String.ofList
  query_of_parse s uri before query fragment hparse hs hquestion hfirst hquery hfragment := by
    have hplain : ∀ c ∈ before ++ '?' :: query, decide (c ≠ '#') = true := by
      intro c hc
      refine decide_eq_true ?_
      rintro rfl
      simp only [List.mem_append, List.mem_cons] at hc
      rcases hc with hc | hc | hc
      exacts [hfirst hc, absurd hc (by decide), hquery hc]
    have hrest : fragment.takeWhile (· ≠ '#') = [] := by
      cases fragment with
      | nil => rfl
      | cons c rest => exact List.takeWhile_cons_of_neg (by simpa using hfragment c rfl)
    have hwhole : s.toList = (before ++ '?' :: query) ++ fragment := by rw [hs]; simp
    have hbefore : ∀ c ∈ before, decide (c ≠ '?') = true := fun c hc =>
      decide_eq_true fun heq => hquestion (heq ▸ hc)
    obtain ⟨-, ⟨⟩⟩ := Option.ite_none_right_eq_some.mp hparse
    rw [hwhole, List.takeWhile_append_of_pos hplain, hrest, List.append_nil,
      List.dropWhile_append_of_pos hbefore]
    simp

/-! ### The uploader -/

/-- Where the worker is. -/
inductive UploadTask (U : Type)
  /-- Waits for a size. -/
  | receiving
  /-- Waits for the response to a request. -/
  | requesting (request : Request U)
  /-- Waits to try again. -/
  | sleeping (url : U)
  | panicked
  deriving DecidableEq

/-- The request without a response. -/
def UploadTask.request? : UploadTask U → Option (Request U)
  | requesting request => some request
  | _ => none

/-- The URL that is being uploaded to. -/
def UploadTask.url? : UploadTask U → Option U
  | receiving | panicked => none
  | requesting request => some request.url
  | sleeping url => some url

structure Uploader (U : Type) where
  task : UploadTask U
  /-- `size_channel`, from the writer. -/
  sizes : Fifo ℕ
  /-- The requests with a response or an error. -/
  answered : List (Request U × Except String Unit)
  /-- What has been logged. -/
  log : List String

/-- What the worker does, and what is done to its channel. -/
inductive UploadAction
  /-- The writer queues the size of an attachment. -/
  | enqueue (size : ℕ)
  | recv
  /-- The request gets a response, or fails. -/
  | respond (res : Except String Unit)
  /-- The worker has slept, and makes another request. -/
  | retry

namespace Uploader

def init : Uploader U where
  task := .receiving
  sizes := .empty
  answered := []
  log := []

def step (uris : UriParser U) (target user : String) (s : Uploader U) :
    UploadAction → Option (Uploader U)
  | .enqueue size => some { s with sizes := s.sizes.push size }
  | .recv =>
    match s.task, s.sizes.pop? with
    | .receiving, some (size, sizes) =>
      match webUrl uris target size user with
      | some url => some { s with task := .requesting ⟨.put, url⟩, sizes := sizes }
      | none => some { s with task := .panicked, sizes := sizes }
    | _, _ => none
  | .respond res =>
    match s.task with
    | .requesting request =>
      let answered := s.answered ++ [(request, res)]
      match res with
      | .ok () => some { s with task := .receiving, answered := answered }
      | .error e => some
          { s with
            task := .sleeping request.url
            answered := answered
            log := s.log ++ [s!"{user},{uris.display request.url},Error uploading: {e}"] }
    | _ => none
  | .retry =>
    match s.task with
    -- `client.get`, whatever the method of the request that failed
    | .sleeping url => some { s with task := .requesting ⟨.get, url⟩ }
    | _ => none

/-- The ways in which the uploader steps. -/
inductive Step (uris : UriParser U) (target user : String) (s : Uploader U) :
    UploadAction → Uploader U → Prop
  | enqueue {size} : Step uris target user s (.enqueue size) { s with sizes := s.sizes.push size }
  | recv {size sizes url} : s.task = .receiving → s.sizes.pop? = some (size, sizes) →
      webUrl uris target size user = some url →
      Step uris target user s .recv { s with task := .requesting ⟨.put, url⟩, sizes := sizes }
  | recvInvalid {size sizes} : s.task = .receiving → s.sizes.pop? = some (size, sizes) →
      webUrl uris target size user = none →
      Step uris target user s .recv { s with task := .panicked, sizes := sizes }
  | respondOk {request} : s.task = .requesting request →
      Step uris target user s (.respond (.ok ()))
        { s with task := .receiving, answered := s.answered ++ [(request, .ok ())] }
  | respondError {request e} : s.task = .requesting request →
      Step uris target user s (.respond (.error e))
        { s with
          task := .sleeping request.url
          answered := s.answered ++ [(request, .error e)]
          log := s.log ++ [s!"{user},{uris.display request.url},Error uploading: {e}"] }
  | retry {url} : s.task = .sleeping url →
      Step uris target user s .retry { s with task := .requesting ⟨.get, url⟩ }

variable {uris : UriParser U} {target user : String} {s t : Uploader U} {a : UploadAction}
  {as : List UploadAction}

/-- **Inversion.** What a step can have been. -/
theorem step_cases (h : s.step uris target user a = some t) : Step uris target user s a t := by
  cases a with
  | enqueue size => exact Option.some_inj.mp h ▸ .enqueue
  | recv =>
    simp only [step] at h
    split at h
    · split at h
      · exact Option.some_inj.mp h ▸ .recv ‹_› ‹_› ‹_›
      · exact Option.some_inj.mp h ▸ .recvInvalid ‹_› ‹_› ‹_›
    · cases h
  | respond res =>
    simp only [step] at h
    split at h
    · cases res with
      | ok => exact Option.some_inj.mp h ▸ .respondOk ‹_›
      | error e => exact Option.some_inj.mp h ▸ .respondError ‹_›
    · cases h
  | retry =>
    simp only [step] at h
    split at h
    · exact Option.some_inj.mp h ▸ .retry ‹_›
    · cases h

def system (uris : UriParser U) (target user : String) : System (Uploader U) UploadAction :=
  ⟨step uris target user⟩

/-! ### Requests -/

/-- The requests that have succeeded. -/
def succeeded (s : Uploader U) : List (Request U) :=
  s.answered.filterMap fun a => a.2.toOption.map fun _ => a.1

/-- The requests made, and whether they have failed. -/
def made (s : Uploader U) : List (Request U × Bool) :=
  (s.answered.map fun a => (a.1, a.2.toOption.isNone)) ++
    s.task.request?.toList.map fun request => (request, false)

/-- A request repeats the one before if that has failed. -/
def Repeats (r r' : Request U × Bool) : Prop := r.2 = true → r'.1 = r.1

/-- The requests that succeed, and the one that the worker is about, are one PUT for each size in
the order of the queue, and a failed request is followed only by the same again. -/
structure UploadsOnce (uris : UriParser U) (target user : String) (s : Uploader U) : Prop where
  once : (s.succeeded ++ s.task.url?.toList.map (Request.mk .put)).map some =
    s.sizes.received.map fun size => (webUrl uris target size user).map (Request.mk .put)
  repeats : s.made.IsChain Repeats

/-- No request is made after a failure, and the URL for a size that is taken parses. -/
def Direct (uris : UriParser U) (target user : String) (s : Uploader U) : UploadAction → Prop
  | .retry => False
  | .recv => ∀ p ∈ s.sizes.pop?, (webUrl uris target p.1 user).isSome
  | _ => True

/-- What holds in every reachable state. -/
structure Ok (s : Uploader U) : Prop where
  /-- The last request has succeeded before another size is taken. -/
  receiving : s.task = .receiving → ∀ r ∈ s.made.getLast?, r.2 = false
  /-- The worker sleeps because the last request has failed. -/
  sleeping : ∀ url, s.task = .sleeping url → ∃ method, s.made.getLast? = some (⟨method, url⟩, true)
  /-- If failed requests have been repeated, there have been only PUT requests. -/
  puts : s.made.IsChain Repeats → ∀ r ∈ s.made, r.1.method = .put

variable {l : List (Request U × Bool)} {request : Request U} {failed failed' : Bool}

theorem isChain_concat :
    (l ++ [(request, failed)]).IsChain Repeats ↔
      l.IsChain Repeats ∧ ∀ r ∈ l.getLast?, r.2 = true → request = r.1 := by
  simp [List.isChain_append, Repeats]

/-- Whether the last request has failed does not matter to those before. -/
theorem isChain_concat_congr (h : (l ++ [(request, failed)]).IsChain Repeats) :
    (l ++ [(request, failed')]).IsChain Repeats := by
  rwa [isChain_concat] at h ⊢

theorem forall_mem_concat_congr (h : ∀ r ∈ l ++ [(request, failed)], r.1.method = .put) :
    ∀ r ∈ l ++ [(request, failed')], r.1.method = .put := by
  intro r hr
  obtain hr | hr := List.mem_append.mp hr
  · exact h r (List.mem_append_left _ hr)
  · rw [List.mem_singleton.mp hr]
    exact h (request, failed) (List.mem_append_right l (List.mem_singleton_self _))

theorem made_of_requesting (h : s.task = .requesting request) :
    s.made = (s.answered.map fun a => (a.1, a.2.toOption.isNone)) ++ [(request, false)] := by
  rw [made, h]
  rfl

theorem made_of_receiving (h : s.task = .receiving) :
    s.made = s.answered.map fun a => (a.1, a.2.toOption.isNone) := by
  rw [made, h]
  exact List.append_nil _

theorem made_of_sleeping {url : U} (h : s.task = .sleeping url) :
    s.made = s.answered.map fun a => (a.1, a.2.toOption.isNone) := by
  rw [made, h]
  exact List.append_nil _

theorem made_of_panicked (h : s.task = .panicked) :
    s.made = s.answered.map fun a => (a.1, a.2.toOption.isNone) := by
  rw [made, h]
  exact List.append_nil _

/-- After a response, the last request may count as failed. -/
theorem made_respond {res : Except String Unit}
    (hanswered : t.answered = s.answered ++ [(request, res)]) (ht : t.task.request? = none) :
    t.made = (s.answered.map fun a => (a.1, a.2.toOption.isNone)) ++
      [(request, res.toOption.isNone)] := by
  rw [made, ht, hanswered, List.map_append]
  exact List.append_nil _

/-- A response leaves the methods of the requests as they are. -/
theorem Ok.puts_respond (hs : s.Ok) (htask : s.task = .requesting request)
    {res : Except String Unit} (hanswered : t.answered = s.answered ++ [(request, res)])
    (ht : t.task.request? = none) (hchain : t.made.IsChain Repeats) :
    ∀ r ∈ t.made, r.1.method = .put := by
  rw [made_respond hanswered ht] at hchain ⊢
  refine forall_mem_concat_congr (made_of_requesting htask ▸ hs.puts ?_)
  rw [made_of_requesting htask]
  exact isChain_concat_congr hchain

/-- A request after a failure does not repeat it. -/
theorem not_isChain_retry {url : U} (hs : s.Ok) (htask : s.task = .sleeping url) :
    ¬ (s.made ++ [(Request.mk .get url, false)]).IsChain Repeats := by
  intro h
  rw [isChain_concat] at h
  obtain ⟨method, hlast⟩ := hs.sleeping url htask
  have hput : method = .put := hs.puts h.1 _ (List.mem_of_getLast? hlast)
  have hget := congrArg Request.method (h.2 _ hlast rfl)
  rw [hput] at hget
  cases hget

theorem made_retry {url : U} (htask : s.task = .sleeping url) :
    made { s with task := .requesting ⟨.get, url⟩ } = s.made ++ [(⟨.get, url⟩, false)] := by
  rw [made_of_requesting rfl, made_of_sleeping htask]

theorem ok_init : (init (U := U)).Ok where
  receiving _ r hr := by cases hr
  sleeping url h := by cases h
  puts _ r hr := by cases hr

theorem uploadsOnce_init : UploadsOnce uris target user init := ⟨rfl, .nil⟩

theorem ok_step (hs : s.Ok) (h : Step uris target user s a t) : t.Ok := by
  cases h with
  | enqueue => exact ⟨hs.receiving, hs.sleeping, hs.puts⟩
  | @recv size sizes url htask _ _ =>
    refine ⟨fun h => (by cases h), fun url h => (by cases h), fun hchain => ?_⟩
    rw [made_of_requesting rfl, ← made_of_receiving htask] at hchain ⊢
    rw [List.forall_mem_append, List.forall_mem_singleton]
    exact ⟨hs.puts (isChain_concat.mp hchain).1, rfl⟩
  | recvInvalid htask _ _ =>
    refine ⟨fun h => (by cases h), fun url h => (by cases h), ?_⟩
    rw [made_of_panicked rfl, ← made_of_receiving htask]
    exact hs.puts
  | @respondOk request htask =>
    refine ⟨fun _ r hr => ?_, fun url h => (by cases h), hs.puts_respond htask rfl rfl⟩
    rw [made_respond rfl rfl, List.getLast?_concat] at hr
    obtain rfl := Option.some_inj.mp hr
    rfl
  | @respondError request e htask =>
    refine ⟨fun h => (by cases h), fun url h => ?_, hs.puts_respond htask rfl rfl⟩
    obtain rfl := UploadTask.sleeping.inj h
    rw [made_respond rfl rfl, List.getLast?_concat]
    exact ⟨request.method, rfl⟩
  | @retry url htask =>
    refine ⟨fun h => (by cases h), fun url h => (by cases h), fun hchain => ?_⟩
    rw [made_retry htask] at hchain
    exact absurd hchain (not_isChain_retry hs htask)

theorem succeeded_append {res : Except String Unit}
    (hanswered : t.answered = s.answered ++ [(request, res)]) :
    t.succeeded = s.succeeded ++ res.toOption.toList.map fun _ => request := by
  rw [succeeded, hanswered, List.filterMap_append]
  cases res <;> rfl

/-- What the sizes that have been taken ask for, up to the one taken last. -/
theorem UploadsOnce.succeeded_of_receiving (hus : UploadsOnce uris target user s)
    (htask : s.task = .receiving) : s.succeeded.map some =
      s.sizes.received.map fun size => (webUrl uris target size user).map (Request.mk .put) := by
  rw [← hus.once, htask]
  simp [UploadTask.url?]

/-- A step keeps to one PUT for each size unless it makes another request or has no URL. -/
theorem uploadsOnce_step (hs : s.Ok) (hus : UploadsOnce uris target user s)
    (ha : s.Direct uris target user a) (h : Step uris target user s a t) :
    UploadsOnce uris target user t := by
  cases h with
  | @enqueue size =>
    refine ⟨?_, hus.repeats⟩
    rw [Fifo.received_push]
    exact hus.once
  | @recv size sizes url htask hpop hurl =>
    constructor
    · change (s.succeeded ++ [Request.mk .put url]).map some = _
      rw [(Fifo.pop?_eq_some hpop).2.1, List.map_append, List.map_append,
        hus.succeeded_of_receiving htask, List.map_singleton, List.map_singleton, hurl]
      rfl
    · rw [made_of_requesting rfl, ← made_of_receiving htask, isChain_concat]
      refine ⟨hus.repeats, fun r hr hfailed => ?_⟩
      rw [hs.receiving htask r hr] at hfailed
      cases hfailed
  | @recvInvalid size sizes _ hpop hurl =>
    have hsome := ha _ hpop
    rw [hurl] at hsome
    cases hsome
  | @respondOk request htask =>
    have hmade := made_of_requesting htask
    have hput : request = ⟨.put, request.url⟩ := by
      have hmethod := hs.puts hus.repeats (request, false)
        (hmade ▸ List.mem_append_right _ (List.mem_singleton_self _))
      exact congrArg (Request.mk · request.url) hmethod
    constructor
    · have honce := hus.once
      rw [htask] at honce
      rw [succeeded_append rfl, ← honce]
      simp only [UploadTask.url?, Option.toList_some, List.map_singleton, ← hput]
      exact congrArg (List.map some) (List.append_nil _)
    · rw [made_respond rfl rfl]
      exact isChain_concat_congr (hmade ▸ hus.repeats)
  | @respondError request e htask =>
    constructor
    · have honce := hus.once
      rw [htask] at honce
      rw [succeeded_append rfl, ← honce]
      exact congrArg (fun l => List.map some (l ++ _)) (List.append_nil s.succeeded)
    · rw [made_respond rfl rfl]
      exact isChain_concat_congr (made_of_requesting htask ▸ hus.repeats)
  | retry => exact ha.elim

/-- After another step the successful requests are not one PUT for each size, or one does not
repeat what has failed. -/
theorem direct_of_uploadsOnce (hs : s.Ok) (h : Step uris target user s a t)
    (ht : UploadsOnce uris target user t) : s.Direct uris target user a := by
  cases h with
  | enqueue | respondOk | respondError => trivial
  | recv _ hpop hurl =>
    intro p hp
    obtain rfl := Option.some_inj.mp (hpop.symm.trans hp)
    exact hurl ▸ rfl
  | @recvInvalid size sizes _ hpop hurl =>
    -- no request is one for the size without a URL
    have hmem : none ∈ sizes.received.map fun size =>
        (webUrl uris target size user).map (Request.mk .put) := by
      rw [(Fifo.pop?_eq_some hpop).2.1]
      exact List.mem_map.mpr ⟨size, by simp, by rw [hurl]; rfl⟩
    rw [← ht.once] at hmem
    obtain ⟨r, -, hr⟩ := List.mem_map.mp hmem
    cases hr
  | retry htask => exact not_isChain_retry hs htask (made_retry htask ▸ ht.repeats)

/-- **Uploads.** A run makes one PUT for each size, and repeats the requests that fail, exactly if
it never makes a request after a failure and all its URLs parse. -/
theorem uploadsOnce_iff (uris : UriParser U) (target user : String) (as : List UploadAction) :
    (system uris target user).Always (UploadsOnce uris target user) init as ↔
      (system uris target user).Along (Direct uris target user) init as :=
  System.always_iff_along (I := Ok) (J := UploadsOnce uris target user)
    (fun _ _ _ hs h => ok_step hs (step_cases h))
    (fun _ _ _ hs hus ha h => uploadsOnce_step hs hus ha (step_cases h)) (fun _ _ hus => hus)
    (fun _ _ _ hs h ht => direct_of_uploadsOnce hs (step_cases h) ht) ok_init uploadsOnce_init

/-- A run in which the first request for an attachment fails. -/
def failedUpload : List UploadAction :=
  [.enqueue 4480, .recv, .respond (.error "timed out"), .retry, .respond (.ok ())]

/-- **Downloads.** After a failure the attachment is downloaded. -/
theorem downloads_of_retry :
    ((system plainUris "web" "alice").run init failedUpload).map succeeded =
        some [⟨.get, "https://web/?size=4480&user=alice".toList⟩] ∧
      ¬ (system plainUris "web" "alice").Always (UploadsOnce plainUris "web" "alice") init
        failedUpload := by
  refine ⟨by rfl, fun h => ?_⟩
  have hretry := ((((h.2 _ rfl).2 _ rfl).2 _ rfl).2 _ rfl).head
  -- a GET request after a PUT that failed
  have heq := (List.isChain_cons_cons.mp hretry.repeats).1 rfl
  cases congrArg Request.method heq

end Uploader

/-! ### The web server -/

inductive StatusCode
  | ok
  | unprocessableEntity
  deriving DecidableEq, Repr

structure Response where
  status : StatusCode
  body : Bytes
  /-- What has been logged. -/
  log : Option String
  deriving DecidableEq, Repr

/-- `usize::from_str`. -/
def usizeFromStr (s : String) : Option ℕ := Text.parseNat UInt64.size s.toList

/-- `isize::MAX`, up to which a `Vec` of bytes can grow. -/
def isizeMax : ℕ := 9223372036854775807

/-- `process` of `mgen-web.rs`, with the parameters in the query of the URL, if it has one. -/
def process (query : Option (AList fun _ : String => String)) (method : Method) :
    Option Response :=
  let missing := ⟨.unprocessableEntity, asBytes "Missing field", none⟩
  match query with
  | none => some missing
  | some params =>
    match params.lookup "user" with
    | none => some missing
    | some sender =>
      match method with
      | .get =>
        match (params.lookup "size").elim (some 0) usizeFromStr with
        | none => some ⟨.unprocessableEntity, asBytes "Number field is not numeric", none⟩
        | some size =>
          -- `vec![0; size]` panics above that
          if size ≤ isizeMax then
            some ⟨.ok, List.replicate size 0, some s!"sending,{sender},{size}"⟩
          else none
      | .put => some ⟨.ok, [], some s!"receiving,{sender}"⟩

section

variable {params : AList fun _ : String => String} {user : String} {size : ℕ}

/-- The server sends a GET request for an attachment as many bytes, if it can. -/
theorem process_get (huser : params.lookup "user" = some user)
    (hsize : params.lookup "size" = some (toString size)) (hlt : size < UInt64.size) :
    process (some params) .get = if size ≤ isizeMax then
      some ⟨.ok, List.replicate size 0, some s!"sending,{user},{size}"⟩ else none := by
  have hparse : usizeFromStr (toString size) = some size := by
    have hdigits : (toString size).toList = Text.ofNat size :=
      String.toList_ofList
    rw [usizeFromStr, hdigits]
    exact Text.parseNat_ofNat hlt
  simp only [process, huser, hsize, Option.elim_some, hparse]

/-- It takes a PUT request for one. -/
theorem process_put (huser : params.lookup "user" = some user) :
    process (some params) .put = some ⟨.ok, [], some s!"receiving,{user}"⟩ := by
  simp only [process, huser]

end

end SignalSim.Mgen
