/-
  LearnMuduo.Http.HttpResponse

  `bing::HttpResponse` (Http/httpResponse.h, Http/httpResponse.cc): what a response
  callback fills in, and the bytes it is sent as.
-/
import LearnMuduo.Lib.HttpReader
import LearnMuduo.Net.Buffer

namespace LearnMuduo

inductive HttpStatusCode where
  | k100Continue
  | k200OK
  | k400BadRequest
  | k403Forbidden
  | k404NotFound
  | k500InternalServerErrno
  deriving DecidableEq, Repr

/-- The value of the enumerator. -/
def HttpStatusCode.code : HttpStatusCode → Int
  | .k100Continue => 100
  | .k200OK => 200
  | .k400BadRequest => 400
  | .k403Forbidden => 403
  | .k404NotFound => 404
  | .k500InternalServerErrno => 500

def CRLF : Bytes := ascii "\r\n"

/-- `std::to_string` of a `size_t`. -/
def decimal (n : Nat) : Bytes := Lib.HttpReader.digits n

/-- `std::to_string` of an `int`. -/
def decimalInt (i : Int) : Bytes :=
  if i < 0 then ascii "-" ++ decimal i.natAbs else decimal i.natAbs

def server_name_ : Bytes := ascii "Bing_muduo"
def server_http_version_ : Bytes := ascii "HTTP/1.1"

structure HttpResponse where
  status_code_ : Int
  status_message_ : Bytes
  body_ : Bytes
  type_ : Bytes
  close_connection_ : Bool
  deriving DecidableEq, Repr

namespace HttpResponse

/-- The constructor.  `status_code_` has no initialiser: `uninit` stands there. -/
def new (close_connection : Bool) (uninit : Int) : HttpResponse :=
  { status_code_ := uninit
    status_message_ := []
    body_ := []
    type_ := ascii "text/html"
    close_connection_ := close_connection }

def setStatusCode (r : HttpResponse) (status_code : HttpStatusCode) : HttpResponse :=
  { r with status_code_ := status_code.code }

def setStatusMessage (r : HttpResponse) (status_message : Bytes) : HttpResponse :=
  { r with status_message_ := status_message }

def setCloseConnection (r : HttpResponse) (close_connection : Bool) : HttpResponse :=
  { r with close_connection_ := close_connection }

def setBodyType (r : HttpResponse) (type : Bytes) : HttpResponse := { r with type_ := type }

def setBody (r : HttpResponse) (body : Bytes) : HttpResponse := { r with body_ := body }

def CloseConnection (r : HttpResponse) : Bool := r.close_connection_

/-- The string `AppendToBuffer` makes. -/
def message (r : HttpResponse) : Bytes :=
  server_http_version_ ++ ascii " " ++ decimalInt r.status_code_ ++ ascii " " ++
    r.status_message_ ++ CRLF ++
    (if r.close_connection_ then ascii "Connection: close" ++ CRLF
    else
      ascii "Content_Length: " ++ decimal r.body_.length ++ CRLF ++
      (ascii "Connection: Keep-Alive" ++ CRLF) ++
      (ascii "Content_Type: " ++ r.type_ ++ CRLF) ++
      (ascii "Server: " ++ server_name_ ++ CRLF)) ++
    CRLF ++ r.body_

def AppendToBuffer (r : HttpResponse) (buffer : Buffer) : Except Fault Buffer :=
  buffer.appendString r.message

end HttpResponse

end LearnMuduo
