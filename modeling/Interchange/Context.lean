import Interchange.Identifier
/-!
Who is calling and how: what a handler is told besides the request. Metadata is kept in
ascending order of its keys and setting a key replaces what it held.
-/
namespace Interchange

inductive Transport where
  | local
  | http
  | webSocket
  | tcp
  deriving DecidableEq, Repr

def Transport.name : Transport → String
  | .local => "local"
  | .http => "http"
  | .webSocket => "websocket"
  | .tcp => "tcp"

structure Context where
  locale : String
  transport : Transport
  remoteAddress : Option String
  correlation : Option Identifier
  metadata : List (String × String)
  deriving DecidableEq, Repr

namespace Context

def ofLocale (locale : String) : Context := ⟨locale, .local, none, none, []⟩

def standard : Context := ofLocale ""

def withTransport (transport : Transport) (context : Context) : Context :=
  { context with transport := transport }

def withRemoteAddress (address : String) (context : Context) : Context :=
  { context with remoteAddress := some address }

def withCorrelation (identifier : Identifier) (context : Context) : Context :=
  { context with correlation := some identifier }

def place (key value : String) : List (String × String) → List (String × String)
  | [] => [(key, value)]
  | entry :: rest =>
    if entry.1 = key then (key, value) :: rest
    else if key < entry.1 then (key, value) :: entry :: rest
    else entry :: place key value rest

def withMetadata (key value : String) (context : Context) : Context :=
  { context with metadata := place key value context.metadata }

def metadata? (key : String) (context : Context) : Option String := context.metadata.lookup key

end Context

end Interchange
