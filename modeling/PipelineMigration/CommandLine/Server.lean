import PipelineMigration.CommandLine.Session
import PipelineMigration.Json.Writer
import PipelineMigration.Service.Endpoint
set_option autoImplicit false

/- Servers that commands may talk to: none at all, one whose replies are laid down, and a service
   at hand. -/
namespace PipelineMigration.CommandLine.Server

def absent (reason : Text) (_ : ServerRequest) (s : Unit) : ServerReply × Unit :=
  (.unreachable reason, s)

/-- Replies in turn; when they are used up the server is gone. -/
def scripted (reason : Text) (_ : ServerRequest) : List ServerReply → ServerReply × List ServerReply
  | [] => (.unreachable reason, [])
  | reply :: rest => (reply, rest)

/-- A service in the same process, with its archive. -/
def atHand {τ : Type} [Enrichment.Clock τ] (s : Service.Setup τ) (m : Service.Moment τ)
    (request : ServerRequest) (a : Archive) : ServerReply × Archive :=
  let reply := Service.answer s m {
    method := request.method, path := request.path, query := request.query
    body := request.body.map Json.compact } a
  (.answered reply.response.status ((reply.response.body.map Json.compactUnicode).getD []),
    reply.archive)

end PipelineMigration.CommandLine.Server
