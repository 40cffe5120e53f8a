import MediumClone.Support.Run
import MediumClone.Support.WaitsFor
import MediumClone.Support.Serial
import MediumClone.Support.Locks
import MediumClone.Support.JsText
import MediumClone.Support.JsUri
import MediumClone.Support.JsValue
import MediumClone.Support.JsRecord
import MediumClone.Support.JsReplace
import MediumClone.Support.Window
import MediumClone.Support.Transaction
import MediumClone.Support.JsDate
import MediumClone.Support.JsMap
import MediumClone.Support.Keyed
import MediumClone.Support.Sql
import MediumClone.Config.DatabaseConfig
import MediumClone.Config.Target
import MediumClone.Config.Errors
import MediumClone.Config.Reset
import MediumClone.Redis.Connection
import MediumClone.Users.UserRow
import MediumClone.Database.RowLocks
import MediumClone.Database.Schema
import MediumClone.Articles.TagWrites
import MediumClone.Articles.Read
import MediumClone.Articles.ListQuery
import MediumClone.Articles.Hydration
import MediumClone.Articles.Slug
import MediumClone.Articles.Writes
import MediumClone.Articles.Update
import MediumClone.Articles.UpdatedAt
import MediumClone.Articles.Favorites
import MediumClone.Comments.Service
import MediumClone.Comments.Store
import MediumClone.Comments.Listing
import MediumClone.Profiles.Follows
import MediumClone.Articles.Ownership
import MediumClone.Articles.TagRoundTrip
import MediumClone.Articles.PartialUpdate
import MediumClone.Avatar.Handler
import MediumClone.Avatar.MediaType
import MediumClone.Avatar.Pointer
import MediumClone.Avatar.Cleanup
import MediumClone.Attachments.Storage
import MediumClone.Attachments.Confinement
import MediumClone.Files.Read
import MediumClone.Files.RoundTrip
import MediumClone.Auth.DenyList
import MediumClone.Auth.Gate
import MediumClone.Outbox.Queue
import MediumClone.Outbox.Store
import MediumClone.Outbox.Relay
import MediumClone.Outbox.Delivery
import MediumClone.Outbox.Lease
import MediumClone.Outbox.Pass
import MediumClone.Outbox.Rejection
import MediumClone.Outbox.Runner
import MediumClone.Outbox.Recovery
import MediumClone.Outbox.WelcomeMail
import MediumClone.Auth.RateLimit
import MediumClone.Auth.Registration
import MediumClone.Logging.RequestLog
import MediumClone.Logging.Redaction
import MediumClone.Filters.ApiException
import MediumClone.Support.SqlColumn
import MediumClone.Validation.Dtos
import MediumClone.Validation.Pipe
import MediumClone.Validation.SchemaFit
import MediumClone.Support.Refinement
import MediumClone.Blog.World
import MediumClone.Articles.Failures
import MediumClone.Articles.Success
import MediumClone.Blog.Calls
import MediumClone.Blog.Abstraction
import MediumClone.Blog.Effects
import MediumClone.Blog.Refinement
import MediumClone.Blog.History
import MediumClone.Blog.Locking
import MediumClone.Blog.Concurrent
import MediumClone.Auth.Sessions
import MediumClone.Auth.Provenance
import MediumClone.Auth.Login
import MediumClone.Blog.Requests
import MediumClone.Blog.Statements
import MediumClone.Blog.Http
import MediumClone.Blog.Integrity
import MediumClone.Blog.Availability
